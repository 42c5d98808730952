import WitnessReplication.Proofs.Client.Absorbing

/-!
# What a message does to a client

A message to a client is passed over, or it does one thing to one command: it is counted, makes the
command escalate, or completes it (`Client.reacts_handle`).

A message is spent once a client passes it over for good (`Client.Spent`). A client that handles a
message spends it, and a message that is spent changes nothing when it comes again, as long as the
command that it is about is not issued anew.
-/

namespace WitnessReplication.Client

/-- What one message can do to a client. -/
inductive Reacts (c : Client) : Reaction → Prop
  | passed : Reacts c { client := c }
  | counted {id : CommandId} {p p' : Pending} (hp : c.pending[id]? = some p)
      (hescalated : p'.escalated = p.escalated) :
      Reacts c { client := { c with pending := c.pending.insert id p' } }
  | escalated {id : CommandId} {p p' : Pending} (hp : c.pending[id]? = some p)
      (hbefore : p.escalated = false) (hafter : p'.escalated = true) :
      Reacts c
        { client :=
            { c with
              pending := c.pending.insert id p'
              stats := { c.stats with escalated := c.stats.escalated + 1 } }
          sent := [.toReplica c.config.leader (.sync ⟨id⟩)] }
  | completed {id : CommandId} {p : Pending} {value : Value} {path : Path}
      (hp : c.pending[id]? = some p) (hpath : path ≠ .weak) :
      Reacts c
        { client := { c with pending := c.pending.erase id, stats := c.stats.count path }
          completion := some ⟨id, value, path⟩ }
  | completedWeak {id : CommandId} {value : Value} (hid : id ∈ c.weak) :
      Reacts c
        { client := { c with weak := c.weak.erase id, stats := c.stats.count .weak }
          completion := some ⟨id, value, .weak⟩ }

/-- A message is spent: whatever of it counts has been counted, and a result that the leader was
not clear about has made its command escalate. -/
def Spent (c : Client) (m : ClientMessage) : Prop :=
  c.Absorbed c.config m ∧
    ∀ a, m = .reply a → a.ok ≠ .clear → ∀ p, c.pending[a.id]? = some p → p.escalated = true

variable {c : Client} {id : CommandId} {p : Pending} {m m' : ClientMessage}
variable {count : Pending → Pending × Decision}

/-! ### One message -/

theorem reacts_update (hescalated : ∀ p, (count p).1.escalated = p.escalated)
    (hpath : ∀ p value path, (count p).2 = .complete value path → path ≠ .weak) :
    c.Reacts (c.update id count) := by
  unfold update
  cases hp : c.pending[id]? with
  | none => exact .passed
  | some p =>
      dsimp only
      cases hdone : (count p).2 with
      | wait => exact .counted hp (hescalated p)
      | escalate =>
          have hkept := hescalated p
          unfold Client.escalate
          dsimp only
          cases hasked : (count p).1.escalated with
          | true =>
              rw [if_pos rfl]
              exact .counted hp (hescalated p)
          | false =>
              rw [if_neg (by simp)]
              exact .escalated hp (hkept.symm.trans hasked) rfl
      | complete value path => exact .completed hp (hpath p value path hdone)

theorem reacts_completeWeak (m : WeakReply) : c.Reacts (c.completeWeak m) := by
  unfold completeWeak
  split
  · rename_i hmem
    exact .completedWeak (Std.ExtTreeSet.contains_iff_mem.1 hmem)
  · exact .passed

theorem reacts_handle (c : Client) (m : ClientMessage) : c.Reacts (c.handle m) := by
  cases m with
  | reply m => exact reacts_update (fun _ => rfl) fun _ _ _ => path_onReply
  | syncReply m => exact reacts_update (fun _ => rfl) fun _ _ _ => path_onSyncReply
  | recordAck m =>
      unfold handle
      dsimp only
      split
      · exact .passed
      · exact reacts_update (fun _ => rfl) fun _ _ _ => path_onRecordAck
  | weakReply m => exact reacts_completeWeak m
  | causalReply m =>
      unfold handle
      dsimp only
      split
      · exact reacts_completeWeak m
      · exact .passed

theorem config_handle (c : Client) (m : ClientMessage) : (c.handle m).client.config = c.config := by
  have hreacts := reacts_handle c m
  generalize c.handle m = reaction at hreacts
  cases hreacts <;> rfl

/-- A command that has escalated stays so as long as it is pending. -/
theorem escalated_handle (hescalated : ∀ p, c.pending[id]? = some p → p.escalated = true)
    (hp : (c.handle m).client.pending[id]? = some p) : p.escalated = true := by
  have hinsert : ∀ {id' : CommandId} {p₀ p' : Pending}, c.pending[id']? = some p₀ →
      (p₀.escalated = true → p'.escalated = true) → (c.pending.insert id' p')[id]? = some p →
      p.escalated = true := by
    intro id' p₀ p' hp₀ hkeeps hput
    rw [Std.ExtTreeMap.getElem?_insert] at hput
    split at hput
    · rename_i heq
      obtain rfl := Std.LawfulEqOrd.eq_of_compare heq
      obtain rfl := Option.some.inj hput
      exact hkeeps (hescalated p₀ hp₀)
    · exact hescalated p hput
  have hreacts := reacts_handle c m
  generalize c.handle m = reaction at hreacts hp
  cases hreacts with
  | passed => exact hescalated p hp
  | counted hp₀ hkept => exact hinsert hp₀ (fun h => hkept.trans h) hp
  | escalated hp₀ _ hafter => exact hinsert hp₀ (fun _ => hafter) hp
  | completed hp₀ _ =>
      rw [Std.ExtTreeMap.getElem?_erase] at hp
      split at hp
      · simp at hp
      · exact hescalated p hp
  | completedWeak _ => exact hescalated p hp

/-! ### Messages that are spent -/

theorem Spent.handle (h : c.Spent m) (m' : ClientMessage) : (c.handle m').client.Spent m := by
  constructor
  · rw [config_handle]
    exact h.1.handle m'
  · intro a ha hok p hp
    exact escalated_handle (h.2 a ha hok) hp

theorem Spent.issue (h : c.Spent m) {weak : Bool} {command : Command}
    (hother : m.id ≠ (c.issue weak command).2.1) : (c.issue weak command).1.Spent m := by
  have hconfig : (c.issue weak command).1.config = c.config := by cases weak <;> rfl
  constructor
  · rw [hconfig]
    exact h.1.issue rfl hother
  · rintro a rfl hok p hp
    rcases pending_issue rfl hp with hold | ⟨hnew, -⟩
    · exact h.2 a rfl hok p hold
    · exact absurd hnew hother

/-- Counting what has been counted puts the command back as it was. -/
theorem update_of_counted (hsame : ∀ p, c.pending[id]? = some p → (count p).1 = p ∧
    ((count p).2 = .wait ∨ (count p).2 = .escalate ∧ p.escalated = true)) :
    c.update id count = { client := c } := by
  unfold update
  cases hp : c.pending[id]? with
  | none => rfl
  | some p =>
      have hput : { c with pending := c.pending.insert id p } = c := by
        have hpending : c.pending.insert id p = c.pending := by
          apply Std.ExtTreeMap.ext_getElem?
          intro other
          rw [Std.ExtTreeMap.getElem?_insert]
          split
          · rename_i heq
            rw [← Std.LawfulEqOrd.eq_of_compare heq, hp]
          · rfl
        rw [hpending]
      obtain ⟨hcounted, hwait | ⟨hescalate, hescalated⟩⟩ := hsame p hp
      · simp only [hwait, hcounted, hput]
      · simp only [hescalate, hcounted, Client.escalate, hescalated, if_true, hput]

theorem completeWeak_of_not_mem {a : WeakReply} (h : a.id ∉ c.weak) :
    c.completeWeak a = { client := c } := by
  unfold completeWeak
  rw [if_neg]
  simpa using h

/-- A spent message changes nothing and has no effect. -/
theorem Spent.handle_eq (h : c.Spent m) : c.handle m = { client := c } := by
  obtain ⟨habsorbed, hescalated⟩ := h
  cases m with
  | reply a =>
      refine update_of_counted fun p hp => ?_
      have hadd := (habsorbed p hp).add_eq (Vote.ofReply a)
      simp only [Pending.onReply, hadd]
      refine ⟨trivial, ?_⟩
      by_cases hok : a.ok = .clear
      · simp [hok]
      · simp [hok, hescalated a rfl hok p hp]
  | syncReply a =>
      refine update_of_counted fun p hp => ?_
      have hadd := (habsorbed p hp).add_eq (Vote.ofReply a)
      simp [Pending.onSyncReply, hadd]
  | recordAck a =>
      unfold Client.handle
      dsimp only
      split
      · rfl
      · rename_i hballot
        refine update_of_counted fun p hp => ?_
        obtain ⟨hfast, hslow⟩ := habsorbed (by simpa using hballot) p hp
        have hfast := hfast.add_eq (Vote.ofRecordAck a)
        have hslow := hslow.add_eq (Vote.ofRecordAck a)
        simp [Pending.onRecordAck, hfast, hslow]
  | weakReply a => exact completeWeak_of_not_mem habsorbed
  | causalReply a =>
      unfold Client.handle
      dsimp only
      split
      · rename_i hbound
        exact completeWeak_of_not_mem (habsorbed hbound)
      · rfl

/-- A client that handles a message spends it. -/
theorem spent_handle (c : Client) (m : ClientMessage) : (c.handle m).client.Spent m := by
  constructor
  · rw [config_handle]
    exact absorbed_handle rfl m
  · rintro a rfl hok p hp
    obtain ⟨p₀, -, ⟨hother, -⟩ | ⟨-, asks, hcounted, -⟩⟩ := pending_update hp
    · exact absurd rfl hother
    · cases hcounted with
      | waits hwait =>
          simp only [Pending.onReply] at hwait
          split at hwait
          · split at hwait <;> simp at hwait
          · simp [hok] at hwait
      | escalated => rfl

end WitnessReplication.Client
