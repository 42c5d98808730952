import Mathlib.Data.List.Nodup
import Mathlib.Data.List.Perm.Basic
import WitnessReplication.Proofs.Network.Rules
import WitnessReplication.Proofs.Replica.Repeating

/-!
# Copies of weak commands

The log has one slot for every copy of a weak command that the leader has handled. Where no weak
command is repeated, a replica gets one copy at most: it has handled it, or it is in flight, and
the two together are never more than one (`Chronicle.ReachableBy.copies_afloat_le`).
-/

namespace WitnessReplication

/-- Whether a letter brings a request to a replica. -/
def Network.Letter.brings (id : ReplicaId) (q : Request) : Letter → Bool
  | .toReplica id' m => decide (id' = id ∧ m.request? = some q)
  | .toClient _ _ => false

namespace Chronicle

open Network Replica

/-- How many copies of a request a replica has handled. -/
def copies (c : Chronicle) (id : ReplicaId) (q : Request) : Nat :=
  c.handled.countP fun d => d.replica.id = id ∧ d.message.request? = some q

/-- How many copies of a request are in flight to a replica. -/
def afloat (c : Chronicle) (id : ReplicaId) (q : Request) : Nat :=
  c.network.pool.countP (Letter.brings id q)

variable {config : Config} {bounds : List ReplicaId} {c c' : Chronicle} {q : Request}
variable {id : ReplicaId} {rule : Rule} {action : Action} {place : Nat} {letter : Letter}

/-- Every copy of a weak command that the leader handles adds one slot for it to the log. -/
theorem Step.count_copies (h : c.Step c') (hs : c.Sound config) (hweak : q.weak = true)
    (hcount : (c.log.map Assignment.toRequest).count q = c.copies config.leader q) :
    (c'.log.map Assignment.toRequest).count q = c'.copies config.leader q := by
  rcases h.quiet_or_handles hs with hquiet | ⟨id, r, m, hhandles⟩
  · rw [copies, hquiet.handled_eq, hquiet.log_eq]
    exact hcount
  · have hattends := hhandles.attends hs
    have hleads : r.isLeader = true ↔ r.id = config.leader := by
      rw [hs.replicas.isLeader_eq hhandles.replica, hhandles.id_eq hs, decide_eq_true_iff]
    rw [copies] at hcount
    rw [copies, hhandles.handled_eq, List.countP_append, ← hcount, List.countP_singleton]
    by_cases hcopy : r.id = config.leader ∧ m.request? = some q
    · rw [hattends.log_eq_of_weak (hleads.2 hcopy.1) hcopy.2 hweak]
      simp [hcopy]
    · rcases hattends.log_eq_or with hlog | ⟨hleader, q', -, hq', -, hlog⟩
      · rw [hlog]
        simp [hcopy]
      · have hother : q' ≠ q := by
          rintro rfl
          exact hcopy ⟨hleads.1 hleader, hq'⟩
        rw [hlog]
        simp [hcopy, hother]

theorem Reachable.count_copies (hc : c.Reachable config bounds) (hweak : q.weak = true) :
    (c.log.map Assignment.toRequest).count q = c.copies config.leader q := by
  apply hc.induct
    (P := fun c => (c.log.map Assignment.toRequest).count q = c.copies config.leader q)
  · exact fun _ _ => rfl
  · exact fun c c' hs hstep hcount => hstep.count_copies hs hweak hcount

/-! ### At most one copy -/

theorem request?_of_brings (h : letter.brings id q = true) : letter.request? = some q := by
  cases letter with
  | toReplica id' m =>
      have hboth : id' = id ∧ m.request? = some q := of_decide_eq_true h
      exact hboth.2
  | toClient id' m => exact absurd h Bool.false_ne_true

/-- Messages that bring nothing do not count when they are sent. -/
theorem countP_post {n : Network} {sender : Option ReplicaId} {sent : List Sent}
    (h : ∀ letter ∈ sent.flatMap (n.letters sender), letter.request? = none) :
    (n.post sender sent).pool.countP (Letter.brings id q) = n.pool.countP (Letter.brings id q) := by
  have hnone : (sent.flatMap (n.letters sender)).countP (Letter.brings id q) = 0 := by
    refine List.countP_eq_zero.2 fun letter hmem hbrings => ?_
    have hletter := h letter hmem
    rw [request?_of_brings hbrings] at hletter
    simp at hletter
  rw [post, List.countP_append, hnone, Nat.add_zero]

/-- A letter that is taken out of those in flight no longer counts. -/
theorem countP_eraseIdx {pool : List Letter} (hl : pool[place]? = some letter)
    (p : Letter → Bool) :
    pool.countP p = (pool.eraseIdx place).countP p + if p letter then 1 else 0 := by
  obtain ⟨hlt, rfl⟩ := List.getElem?_eq_some_iff.1 hl
  rw [← (List.getElem_cons_eraseIdx_perm hlt).countP_eq p, List.countP_cons]

/-- A message to every replica brings its request to each of them at most once. -/
theorem countP_letters_toAll (n : Network) (sender : Option ReplicaId) (m : ReplicaMessage) :
    (n.letters sender (.toAll m)).countP (Letter.brings id q) ≤
      if m.request? = some q then 1 else 0 := by
  rw [letters, List.countP_map]
  split
  · rename_i hm
    have hbrings : Letter.brings id q ∘ (fun id => .toReplica id m) = fun i => i == id := by
      funext i
      simp [Letter.brings, hm, Bool.beq_eq_decide_eq]
    rw [hbrings]
    exact List.nodup_iff_count_le_one.1 (List.nodup_range.filter _) id
  · rename_i hm
    refine Nat.le_of_eq (List.countP_eq_zero.2 fun i _ hbrings => hm ?_)
    exact (of_decide_eq_true hbrings).2

/-- A client that issues a command brings it to each replica at most once, and nothing else. -/
theorem countP_issue (id : ReplicaId) (q : Request) (n : Network) (client : Client) (weak : Bool)
    (command : Command) :
    ((client.issue weak command).2.2.flatMap (n.letters none)).countP (Letter.brings id q) ≤
      if q = ⟨(client.issue weak command).2.1, command, weak⟩ then 1 else 0 := by
  have hall : ∀ m : ReplicaMessage,
      m.request? = some ⟨(client.issue weak command).2.1, command, weak⟩ →
      (n.letters none (.toAll m)).countP (Letter.brings id q) ≤
        if q = ⟨(client.issue weak command).2.1, command, weak⟩ then 1 else 0 := by
    intro m hm
    refine Nat.le_trans (countP_letters_toAll n none m) (Nat.le_of_eq ?_)
    simp [hm, eq_comm]
  cases weak with
  | false => simpa [Client.issue, Client.propose] using hall _ rfl
  | true =>
      cases hvariant : client.config.variant with
      | leaderOnly =>
          simp only [Client.issue, Client.proposeWeak, hvariant, if_true, List.flatMap_cons,
            List.flatMap_nil, List.append_nil, letters, List.countP_singleton]
          split
          · rename_i hb
            exact Nat.le_of_eq (if_pos (Option.some.inj (request?_of_brings hb)).symm).symm
          · exact Nat.zero_le _
      | everyReplica =>
          simpa [Client.issue, Client.proposeWeak, hvariant] using hall _ rfl

/-- A replica that handles a message brings nothing to anyone. -/
theorem Handles.request?_eq_none {r : Replica} {m : ReplicaMessage} (h : c.Handles id r m c')
    (hs : c.Sound config) (n : Network) :
    ∀ letter ∈ (r.step m).2.flatMap (n.letters (some id)), letter.request? = none := by
  intro letter hmem
  obtain ⟨s, hsent, hmem⟩ := List.mem_flatMap.1 hmem
  obtain ⟨e, he, hes⟩ := List.mem_filterMap.1 hsent
  have hbacked := (h.attends hs).serving.backed e he _ fun _ => Nat.le_refl _
  cases e with
  | broadcast message =>
      obtain ⟨body, rfl⟩ := hbacked
      obtain rfl := Option.some.inj hes
      obtain ⟨_, -, rfl⟩ := List.mem_map.1 hmem
      rfl
  | tell client message =>
      obtain rfl := Option.some.inj hes
      obtain rfl := List.mem_singleton.1 hmem
      rfl
  | accept body =>
      obtain rfl := Option.some.inj hes
      obtain ⟨_, -, rfl⟩ := List.mem_map.1 hmem
      rfl
  | acceptAck body =>
      obtain rfl := Option.some.inj hes
      obtain rfl := List.mem_singleton.1 hmem
      rfl
  | _ => simp [Effect.sent] at hes

/-- An action that does not repeat a weak command leaves each replica with one copy at most. -/
theorem Turn.copies_afloat_le (h : c.Turn action c') (hs : c.Sound config)
    (hrule : Rule.weakOnce c.network action = true) (hweak : q.weak = true)
    (hle : c.copies id q + c.afloat id q ≤ if q ∈ c.issued then 1 else 0) :
    c'.copies id q + c'.afloat id q ≤ if q ∈ c'.issued then 1 else 0 := by
  cases h with
  | idle => exact hle
  | @issued _ place client weak command haction hc =>
      have hnew := countP_issue id q
        { c.network with clients := c.network.clients.set place (client.issue weak command).1 }
        client weak command
      have hid : (client.issue weak command).2.1 = ⟨client.id, client.nextSeq⟩ := by
        cases weak <;> rfl
      simp only [copies, afloat, post, List.countP_append, List.mem_append,
        List.mem_singleton] at hle hnew ⊢
      by_cases hq : q = ⟨(client.issue weak command).2.1, command, weak⟩
      · -- the command is new, so that there were no copies of it
        have hold : q ∉ c.issued := by
          intro hmem
          have hlt := (hs.clients.sound hc).seq_lt q hmem (by rw [hq, hid])
          rw [hq, hid] at hlt
          exact Nat.lt_irrefl _ hlt
        rw [if_neg hold] at hle
        rw [if_pos hq] at hnew
        rw [if_pos (.inr hq)]
        omega
      · rw [if_neg hq] at hnew
        simp only [hq, or_false]
        omega
  | @lost _ place letter hl hlost =>
      refine Nat.le_trans (Nat.add_le_add_left ?_ _) hle
      exact (List.eraseIdx_sublist _ place).countP_le
  | @repeated place letter hl =>
      have hletter : letter.brings id q = false := by
        by_contra hbrings
        have hrequest := request?_of_brings (Bool.not_eq_false _ ▸ hbrings)
        simp [Rule.weakOnce, hl, Letter.isWeakProposal, hrequest, hweak] at hrule
      simpa [copies, afloat, List.countP_append, hletter] using hle
  | @reacted place seat client m hl hc =>
      have hbacked := hs.pool _ (List.mem_of_getElem? hl)
      refine Nat.le_trans (Nat.add_le_add_left (?_ : afloat _ id q ≤ c.afloat id q) _) hle
      rw [afloat, countP_post]
      · exact (List.eraseIdx_sublist _ place).countP_le
      · intro letter hmem
        obtain ⟨s, hsent, hmem⟩ := List.mem_flatMap.1 hmem
        obtain ⟨body, rfl⟩ := ((hs.clients.sound hc).handle hbacked).sent s hsent
        obtain rfl := List.mem_singleton.1 hmem
        rfl
  | @handled place id' r m hl hr =>
      have hhandles := handles_deliver hl hr
      have hid := hs.replicas.id_eq hr
      have hpool := countP_eraseIdx hl (Letter.brings id q)
      rw [copies, afloat, countP_post (hhandles.request?_eq_none hs _), List.countP_append,
        List.countP_singleton]
      simp only [copies, afloat, Letter.brings, remove, hid, decide_eq_true_eq] at hle hpool ⊢
      omega

/-- Where no weak command is repeated, a replica gets one copy of each at most. -/
theorem ReachableBy.copies_afloat_le (hc : c.ReachableBy .weakOnce config bounds)
    (hweak : q.weak = true) (id : ReplicaId) :
    c.copies id q + c.afloat id q ≤ if q ∈ c.issued then 1 else 0 := by
  refine hc.induct (fun n hn => ?_) fun c c' action hc _ hrule hturn hle =>
    hturn.copies_afloat_le hc.reachable.history.sound hrule hweak hle
  obtain rfl := Network.start_eq hn
  exact Nat.le_of_eq rfl

/-- A replica that is about to handle a copy has handled none before. -/
theorem ReachableBy.copies_eq_zero (hc : c.ReachableBy .weakOnce config bounds)
    (hweak : q.weak = true) {m : ReplicaMessage} (hm : .toReplica id m ∈ c.network.pool)
    (hq : m.request? = some q) : c.copies id q = 0 := by
  have hle := hc.copies_afloat_le hweak id
  have hpos : 0 < c.afloat id q :=
    List.countP_pos_iff.2 ⟨_, hm, decide_eq_true ⟨rfl, hq⟩⟩
  split at hle <;> omega

/-- Two places of a list with the same element count it twice. -/
private theorem two_le_count {α : Type} [BEq α] [LawfulBEq α] {xs : List α} {i j : Nat} {x : α}
    (hi : xs[i]? = some x) (hj : xs[j]? = some x) (hlt : i < j) : 2 ≤ xs.count x := by
  have hfirst : x ∈ xs.take j :=
    List.mem_iff_getElem?.2 ⟨i, by rw [List.getElem?_take_of_lt hlt, hi]⟩
  have hrest : x ∈ xs.drop j := List.mem_iff_getElem?.2 ⟨0, by simpa using hj⟩
  calc 2 ≤ (xs.take j).count x + (xs.drop j).count x :=
        Nat.add_le_add (List.count_pos_iff.2 hfirst) (List.count_pos_iff.2 hrest)
    _ = xs.count x := by rw [← List.count_append, List.take_append_drop]

/-- Where no weak command is repeated, every request has one slot. -/
theorem ReachableBy.slot_unique (hc : c.ReachableBy .weakOnce config bounds) {slot slot' : Slot}
    (hq : c.log.request? slot = some q) (hq' : c.log.request? slot' = some q) : slot = slot' := by
  have hrecords := hc.reachable.history.sound.records
  cases hweak : q.weak with
  | false => exact hrecords.slot_unique hq hq' rfl hweak
  | true =>
      have hcopies : (c.log.map Assignment.toRequest).count q ≤ 1 := by
        rw [hc.reachable.count_copies hweak]
        have hle := hc.copies_afloat_le hweak config.leader
        split at hle <;> omega
      rw [Log.request?, ← List.getElem?_map] at hq hq'
      rcases Nat.lt_trichotomy slot slot' with hlt | heq | hlt
      · exact absurd (two_le_count hq hq' hlt) (by omega)
      · exact heq
      · exact absurd (two_le_count hq' hq hlt) (by omega)

end Chronicle

end WitnessReplication
