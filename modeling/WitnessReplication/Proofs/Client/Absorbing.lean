import WitnessReplication.Proofs.Certificate
import WitnessReplication.Proofs.Client.Awaiting

/-!
# What a client still waits for

A client that has handled a message has absorbed it: it has counted the sender for the command, or
no longer waits for that. Nothing that the client does later undoes this (`Client.Absorbed.handle`,
`Client.Absorbed.issue`).

A pending command still waits for somebody (`Client.Pending.Waits`). Once its fast certificate has
heard every replica, it has escalated, and its slow certificate has not heard every replica, since
that would have completed the command.
-/

namespace WitnessReplication

open Quorum

/-- The command that a message is about. -/
def ClientMessage.id : ClientMessage → CommandId
  | .reply m => m.id
  | .syncReply m => m.id
  | .recordAck m => m.id
  | .weakReply m => m.id
  | .causalReply m => m.id

namespace Client

/-- A pending command has not completed: its slow certificate is open, and if its fast one is not,
then the command has escalated. -/
structure Pending.Waits (config : Config) (p : Pending) : Prop where
  fast_threshold : p.fast.threshold = config.fastQuorum
  fast_leader : p.fast.leader = config.leader
  fast_settles : p.fast.Settles
  escalated : p.fast.fired = true → p.escalated = true
  slow_threshold : p.slow.threshold = config.majority
  slow_leader : p.slow.leader = config.leader
  slow_settles : p.slow.Settles
  slow_open : p.slow.fired = false

/-- Every pending command waits. -/
def Waits (config : Config) (c : Client) : Prop :=
  ∀ (id : CommandId) p, c.pending[id]? = some p → p.Waits config

/-- A client has taken a message in: it has counted the sender, or waits for the command no
more. -/
def Absorbed (config : Config) (c : Client) : ClientMessage → Prop
  | .reply m => ∀ p, c.pending[m.id]? = some p → p.fast.Heard m.replica
  | .syncReply m => ∀ p, c.pending[m.id]? = some p → p.slow.Heard m.replica
  | .recordAck m => m.ballot = config.ballot → ∀ p, c.pending[m.id]? = some p →
      p.fast.Heard m.replica ∧ p.slow.Heard m.replica
  | .weakReply m => m.id ∉ c.weak
  | .causalReply m => m.replica = c.bound → m.id ∉ c.weak

variable {config : Config} {c : Client} {id id' : CommandId} {p p' : Pending}
variable {m : ClientMessage} {count : Pending → Pending × Decision}

/-! ### What a reaction makes of a pending command -/

/-- What is left of a pending command that a message has been counted for, and whether the leader
is asked about it. -/
inductive Pending.Counted (count : Pending → Pending × Decision) (p : Pending) :
    Pending → (asks : Bool) → Prop
  | waits (h : (count p).2 = .wait) : Counted count p (count p).1 false
  | escalated (h : (count p).2 = .escalate) :
      Counted count p { (count p).1 with escalated := true } !(count p).1.escalated

/-- A command that is pending after a message was so before. If the message is about another
command it is as it was, otherwise the message has been counted for it. -/
theorem pending_update (h : (c.update id' count).client.pending[id]? = some p') :
    ∃ p, c.pending[id]? = some p ∧ ((id ≠ id' ∧ p' = p) ∨
      (id = id' ∧ ∃ asks, p.Counted count p' asks ∧
        (asks = true → .toReplica c.config.leader (.sync ⟨id⟩) ∈ (c.update id' count).sent))) := by
  unfold update at h ⊢
  cases hp : c.pending[id']? with
  | none =>
      simp only [hp] at h
      refine ⟨p', h, .inl ⟨?_, rfl⟩⟩
      rintro rfl
      rw [hp] at h
      simp at h
  | some p =>
      simp only [hp] at h ⊢
      have hput : ∀ next, (c.pending.insert id' next)[id]? = some p' →
          (id = id' ∧ p' = next) ∨ (id ≠ id' ∧ c.pending[id]? = some p') := by
        intro next hnext
        rw [Std.ExtTreeMap.getElem?_insert] at hnext
        split at hnext
        · rename_i heq
          exact .inl ⟨(Std.LawfulEqOrd.eq_of_compare heq).symm, (Option.some.inj hnext).symm⟩
        · rename_i hne
          exact .inr ⟨fun heq => hne (by simp [heq]), hnext⟩
      cases hdone : (count p).2 with
      | wait =>
          simp only [hdone] at h
          rcases hput _ h with ⟨rfl, rfl⟩ | ⟨hne, hold⟩
          · exact ⟨p, hp, .inr ⟨rfl, false, .waits hdone, by simp⟩⟩
          · exact ⟨p', hold, .inl ⟨hne, rfl⟩⟩
      | escalate =>
          simp only [hdone, Client.escalate] at h ⊢
          cases hasked : (count p).1.escalated with
          | true =>
              simp only [hasked, if_true] at h
              rcases hput _ h with ⟨rfl, rfl⟩ | ⟨hne, hold⟩
              · have hsame : { (count p).1 with escalated := true } = (count p).1 := by
                  rw [← hasked]
                have hcounted := Pending.Counted.escalated hdone
                rw [hsame, hasked] at hcounted
                exact ⟨p, hp, .inr ⟨rfl, false, hcounted, by simp⟩⟩
              · exact ⟨p', hold, .inl ⟨hne, rfl⟩⟩
          | false =>
              simp only [hasked, Bool.false_eq_true, if_false] at h ⊢
              rcases hput _ h with ⟨rfl, rfl⟩ | ⟨hne, hold⟩
              · exact ⟨p, hp, .inr ⟨rfl, _, .escalated hdone, by simp⟩⟩
              · exact ⟨p', hold, .inl ⟨hne, rfl⟩⟩
      | complete value path =>
          simp only [hdone] at h
          rw [Std.ExtTreeMap.getElem?_erase] at h
          split at h
          · simp at h
          · rename_i hne
            exact ⟨p', h, .inl ⟨fun heq => hne (by simp [heq]), rfl⟩⟩

/-! ### Counting a message -/

/-- A pending command goes on from where it was: whoever had been heard still has, and it still
waits. -/
structure Pending.Continues (config : Config) (p p' : Pending) : Prop where
  fast : ∀ i, p.fast.Heard i → p'.fast.Heard i
  slow : ∀ i, p.slow.Heard i → p'.slow.Heard i
  waits : p.Waits config → p'.Waits config

/-- What counting a message makes of a pending command that it does not complete goes on from that,
and it escalates only where the message says so. -/
structure Pending.Counting (config : Config) (count : Pending → Pending × Decision) : Prop where
  escalated_eq : ∀ p, (count p).1.escalated = p.escalated
  waits : ∀ p, (count p).2 = .wait → p.Continues config (count p).1
  escalates : ∀ p, (count p).2 = .escalate →
    p.Continues config { (count p).1 with escalated := true }

theorem Pending.Continues.refl (p : Pending) : p.Continues config p where
  fast _ h := h
  slow _ h := h
  waits h := h

/-- Counting a further vote in the fast certificate. -/
theorem Pending.Continues.addFast (p : Pending) {sender : ReplicaId} {vote : Vote}
    {escalated : Bool} (hescalated : p.escalated = true → escalated = true)
    (hopen : (p.fast.add sender vote).2 = none ∨ escalated = true) :
    p.Continues config { p with fast := (p.fast.add sender vote).1, escalated } where
  fast i h := h.add sender vote
  slow i h := h
  waits h :=
    { h with
      fast_threshold := by simpa using h.fast_threshold
      fast_leader := by simpa using h.fast_leader
      fast_settles := h.fast_settles.add sender vote
      escalated := fun hfired => by
        rcases hopen with hnone | htrue
        · rw [Certificate.fired_add, hnone, Option.isSome_none, Bool.or_false] at hfired
          exact hescalated (h.escalated hfired)
        · exact htrue }

/-- Counting a further vote that does not complete the slow certificate. -/
theorem Pending.Continues.addSlow (p : Pending) {sender : ReplicaId} {vote : Vote}
    (hopen : (p.slow.add sender vote).2 = none) :
    p.Continues config { p with slow := (p.slow.add sender vote).1 } where
  fast i h := h
  slow i h := h.add sender vote
  waits h :=
    { h with
      slow_threshold := by simpa using h.slow_threshold
      slow_leader := by simpa using h.slow_leader
      slow_settles := h.slow_settles.add sender vote
      slow_open := by
        rw [Certificate.fired_add, hopen, Option.isSome_none, Bool.or_false]
        exact h.slow_open }

theorem Pending.Continues.trans {p'' : Pending} (h : p.Continues config p')
    (h' : p'.Continues config p'') : p.Continues config p'' where
  fast i hi := h'.fast i (h.fast i hi)
  slow i hi := h'.slow i (h.slow i hi)
  waits hw := h'.waits (h.waits hw)

theorem Pending.counting_onReply (m : Reply) :
    Pending.Counting config fun p => p.onReply m where
  escalated_eq p := rfl
  waits p h := by
    refine .addFast p (fun h => h) (.inl ?_)
    simp only [Pending.onReply] at h
    split at h
    · split at h <;> simp at h
    · assumption
  escalates p _ := .addFast p (fun _ => rfl) (.inr rfl)

theorem Pending.counting_onSyncReply (m : Reply) :
    Pending.Counting config fun p => p.onSyncReply m where
  escalated_eq p := rfl
  waits p h := by
    refine .addSlow p ?_
    simp only [Pending.onSyncReply] at h
    split at h
    · simp at h
    · assumption
  escalates p h := by
    simp only [Pending.onSyncReply] at h
    split at h <;> simp at h

/-- A verdict that completes nothing is counted twice. -/
theorem Pending.counting_onRecordAck (m : RecordAck) :
    Pending.Counting config fun p => p.onRecordAck m where
  escalated_eq p := rfl
  waits p h := by
    simp only [Pending.onRecordAck] at h
    split at h
    · simp at h
    · simp at h
    · simp at h
    · rename_i hfast hslow
      have hnone : (p.fast.add m.replica (.ofRecordAck m)).2 = none := by simpa using hfast
      exact (Pending.Continues.addSlow p hslow).trans (.addFast _ (fun h => h) (.inl hnone))
  escalates p h := by
    simp only [Pending.onRecordAck] at h
    split at h
    · simp at h
    · simp at h
    · rename_i hslow
      exact (Pending.Continues.addSlow p hslow).trans (.addFast _ (fun _ => rfl) (.inr rfl))
    · simp at h

/-! ### Handling a message -/

/-- A command that is pending after a message was pending before and goes on from there; if it has
escalated now, the leader is asked about it. -/
def Reaction.Goes (config : Config) (c : Client) (reaction : Reaction) : Prop :=
  ∀ (id : CommandId) p', reaction.client.pending[id]? = some p' →
    ∃ p, c.pending[id]? = some p ∧ p.Continues config p' ∧ (p'.escalated = true →
      p.escalated = true ∨ .toReplica c.config.leader (.sync ⟨id⟩) ∈ reaction.sent)

theorem goes_update (hcount : Pending.Counting config count) :
    (c.update id' count).Goes config c := by
  intro id p' hp'
  obtain ⟨p, hp, ⟨-, rfl⟩ | ⟨rfl, asks, hcounted, hasks⟩⟩ := pending_update hp'
  · exact ⟨p', hp, .refl p', .inl⟩
  · cases hcounted with
    | waits hdone =>
        refine ⟨p, hp, hcount.waits p hdone, fun hescalated => .inl ?_⟩
        rwa [hcount.escalated_eq] at hescalated
    | escalated hdone =>
        refine ⟨p, hp, hcount.escalates p hdone, fun _ => ?_⟩
        rw [hcount.escalated_eq] at hasks
        cases hescalated : p.escalated with
        | true => exact .inl rfl
        | false => exact .inr (hasks (by simp [hescalated]))

theorem goes_completeWeak (m : WeakReply) : (c.completeWeak m).Goes config c := by
  intro id p' hp'
  refine ⟨p', ?_, .refl p', .inl⟩
  unfold completeWeak at hp'
  split at hp' <;> exact hp'

/-- A client that handles a message goes on with its pending commands. -/
theorem goes_handle (config : Config) (c : Client) (m : ClientMessage) :
    (c.handle m).Goes config c := by
  have hsame : Reaction.Goes config c { client := c } :=
    fun id p' hp' => ⟨p', hp', .refl p', .inl⟩
  cases m with
  | reply m => exact goes_update (Pending.counting_onReply m)
  | syncReply m => exact goes_update (Pending.counting_onSyncReply m)
  | recordAck m =>
      unfold handle
      dsimp only
      split
      · exact hsame
      · exact goes_update (Pending.counting_onRecordAck m)
  | weakReply m => exact goes_completeWeak m
  | causalReply m =>
      unfold handle
      dsimp only
      split
      · exact goes_completeWeak m
      · exact hsame

theorem Waits.handle (h : c.Waits config) (m : ClientMessage) :
    (c.handle m).client.Waits config := by
  intro id p' hp'
  obtain ⟨p, hp, hcontinues, -⟩ := goes_handle config c m id p' hp'
  exact hcontinues.waits (h id p hp)

theorem weak_update (c : Client) (id : CommandId) (count : Pending → Pending × Decision) :
    (c.update id count).client.weak = c.weak := by
  unfold update
  split
  · rfl
  · dsimp only
    split
    · rfl
    · unfold Client.escalate
      split <;> rfl
    · rfl

theorem of_mem_weak_handle (h : id ∈ (c.handle m).client.weak) : id ∈ c.weak := by
  have hweak : ∀ a : WeakReply, id ∈ (c.completeWeak a).client.weak → id ∈ c.weak := by
    intro a ha
    unfold completeWeak at ha
    split at ha
    · exact Std.ExtTreeSet.mem_of_mem_erase ha
    · exact ha
  cases m with
  | reply m => exact weak_update c m.id _ ▸ h
  | syncReply m => exact weak_update c m.id _ ▸ h
  | recordAck m =>
      unfold handle at h
      dsimp only at h
      split at h
      · exact h
      · exact weak_update c m.id _ ▸ h
  | weakReply m => exact hweak m h
  | causalReply m =>
      unfold handle at h
      dsimp only at h
      split at h
      · exact hweak m h
      · exact h

/-! ### Absorbing a message -/

/-- What a client has absorbed stays so, whatever it handles. -/
theorem Absorbed.handle (h : c.Absorbed config m) (m' : ClientMessage) :
    (c.handle m').client.Absorbed config m := by
  cases m with
  | reply a =>
      intro p' hp'
      obtain ⟨p, hp, hcontinues, -⟩ := goes_handle config c m' a.id p' hp'
      exact hcontinues.fast a.replica (h p hp)
  | syncReply a =>
      intro p' hp'
      obtain ⟨p, hp, hcontinues, -⟩ := goes_handle config c m' a.id p' hp'
      exact hcontinues.slow a.replica (h p hp)
  | recordAck a =>
      intro hballot p' hp'
      obtain ⟨p, hp, hcontinues, -⟩ := goes_handle config c m' a.id p' hp'
      obtain ⟨hfast, hslow⟩ := h hballot p hp
      exact ⟨hcontinues.fast a.replica hfast, hcontinues.slow a.replica hslow⟩
  | weakReply a => exact fun hmem => h (of_mem_weak_handle hmem)
  | causalReply a =>
      intro hbound hmem
      rw [bound_handle] at hbound
      exact h hbound (of_mem_weak_handle hmem)

/-- Counting a message for a pending command hears its sender. -/
theorem heard_update (heard : Pending → Prop) (hheard : ∀ p, heard (count p).1)
    (hescalated : ∀ p, heard p → heard { p with escalated := true })
    (hp : (c.update id count).client.pending[id]? = some p) : heard p := by
  obtain ⟨p, -, ⟨hother, -⟩ | ⟨-, asks, hcounted, -⟩⟩ := pending_update hp
  · exact absurd rfl hother
  · cases hcounted with
    | waits => exact hheard p
    | escalated => exact hescalated _ (hheard p)

/-- A client that handles a message absorbs it. -/
theorem absorbed_handle (hconfig : c.config = config) (m : ClientMessage) :
    (c.handle m).client.Absorbed config m := by
  have hweak : ∀ a : WeakReply, a.id ∉ (c.completeWeak a).client.weak := by
    intro a
    unfold completeWeak
    split
    · simp
    · rename_i hnot
      simpa using hnot
  cases m with
  | reply a =>
      intro p hp
      refine heard_update (fun p => p.fast.Heard a.replica) ?_ (fun _ h => h) hp
      exact fun p => Certificate.heard_add ..
  | syncReply a =>
      intro p hp
      refine heard_update (fun p => p.slow.Heard a.replica) ?_ (fun _ h => h) hp
      exact fun p => Certificate.heard_add ..
  | recordAck a =>
      intro hballot p hp
      unfold Client.handle at hp
      dsimp only at hp
      rw [if_neg (by simp [hballot, hconfig])] at hp
      refine heard_update (fun p => p.fast.Heard a.replica ∧ p.slow.Heard a.replica) ?_
        (fun _ h => h) hp
      exact fun p => ⟨Certificate.heard_add .., Certificate.heard_add ..⟩
  | weakReply a => exact hweak a
  | causalReply a =>
      intro hbound
      rw [bound_handle] at hbound
      unfold Client.handle
      dsimp only
      rw [if_pos hbound]
      exact hweak a

/-! ### Issuing a command -/

/-- A command that is pending after one is issued was so before, or it is that one, and no one has
been heard about it. -/
theorem pending_issue (hconfig : c.config = config) {weak : Bool} {command : Command}
    (hp : (c.issue weak command).1.pending[id]? = some p) :
    c.pending[id]? = some p ∨ (id = (c.issue weak command).2.1 ∧ p.Waits config ∧
      p.escalated = false) := by
  cases weak with
  | true => exact .inl hp
  | false =>
      have hput : (c.pending.insert ⟨c.id, c.nextSeq⟩
          ⟨.new .threeQuarters c.config.replicas c.config.leader true,
            .new .majority c.config.replicas c.config.leader true, false⟩)[id]? = some p := hp
      rw [Std.ExtTreeMap.getElem?_insert] at hput
      split at hput
      · rename_i heq
        obtain rfl := Option.some.inj hput
        refine .inr ⟨(Std.LawfulEqOrd.eq_of_compare heq).symm, ?_, rfl⟩
        rw [hconfig]
        exact
          { fast_threshold := rfl
            fast_leader := rfl
            fast_settles := Certificate.settles_new _ _ _ (.inr rfl)
            escalated := fun hfired => hfired
            slow_threshold := rfl
            slow_leader := rfl
            slow_settles := Certificate.settles_new _ _ _ (.inr rfl)
            slow_open := rfl }
      · exact .inl hput

theorem Waits.issue (h : c.Waits config) (hconfig : c.config = config) (weak : Bool)
    (command : Command) : (c.issue weak command).1.Waits config := by
  intro id p hp
  rcases pending_issue hconfig hp with hold | ⟨-, hwaits, -⟩
  · exact h id p hold
  · exact hwaits

/-- What a client has absorbed stays so when it issues another command. -/
theorem Absorbed.issue (h : c.Absorbed config m) (hconfig : c.config = config) {weak : Bool}
    {command : Command} (hother : m.id ≠ (c.issue weak command).2.1) :
    (c.issue weak command).1.Absorbed config m := by
  have hpending : ∀ p, (c.issue weak command).1.pending[m.id]? = some p →
      c.pending[m.id]? = some p := fun p hp =>
    (pending_issue hconfig hp).resolve_right fun hnew => hother hnew.1
  have hweak : m.id ∈ (c.issue weak command).1.weak → m.id ∈ c.weak := by
    intro hmem
    cases weak with
    | false => exact hmem
    | true =>
        rcases Std.ExtTreeSet.mem_insert.1 hmem with heq | hold
        · exact absurd (Std.LawfulEqOrd.eq_of_compare heq).symm hother
        · exact hold
  cases m with
  | reply a => exact fun p hp => h p (hpending p hp)
  | syncReply a => exact fun p hp => h p (hpending p hp)
  | recordAck a => exact fun hballot p hp => h hballot p (hpending p hp)
  | weakReply a => exact fun hmem => h (hweak hmem)
  | causalReply a =>
      intro hbound hmem
      rw [bound_issue] at hbound
      exact h hbound (hweak hmem)

/-! ### When everyone has been heard -/

/-- A pending command whose fast certificate has heard every replica has escalated. -/
theorem Pending.Waits.escalated_of_heard (h : p.Waits config)
    (hleader : config.leader < config.replicas)
    (hheard : ∀ i < config.replicas, p.fast.Heard i) : p.escalated = true := by
  refine h.escalated (h.fast_settles.fired_of_heard ?_ (h.fast_leader ▸ hleader) hheard)
  rw [h.fast_threshold]
  simp only [Config.fastQuorum, Threshold.size]
  lia

/-- The slow certificate of a pending command has not heard every replica. -/
theorem Pending.Waits.not_heard (h : p.Waits config) (hleader : config.leader < config.replicas) :
    ¬∀ i < config.replicas, p.slow.Heard i := by
  intro hheard
  have hthreshold : p.slow.threshold ≤ config.replicas := by
    rw [h.slow_threshold]
    simp only [Config.majority, Threshold.size]
    lia
  have hfired := h.slow_settles.fired_of_heard hthreshold (h.slow_leader ▸ hleader) hheard
  rw [h.slow_open] at hfired
  simp at hfired

end Client

end WitnessReplication
