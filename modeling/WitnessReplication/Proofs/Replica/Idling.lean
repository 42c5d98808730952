import WitnessReplication.Proofs.Replica.Digesting
import WitnessReplication.Proofs.Replica.Taking

/-!
# Events that change nothing

An event that its slot has taken already leaves the record of the slot as it is. The slot is then
tried once more, which changes nothing either, because no slot that could execute is left to wait
in vain: the slot before it is under way and is marked as awaited (`Replica.Steady`). So the replica
stays as it is as a whole, and sends nothing.
-/

namespace WitnessReplication

/-- The epoch that a message belongs to, if it is one by which the log is replicated. -/
def ReplicaMessage.ballot? : ReplicaMessage → Option Ballot
  | .accept m => some m.ballot
  | .acceptAck m => some m.ballot
  | .commit m => some m.ballot
  | _ => none

namespace Replica

variable {m : ReplicaMessage} {steps : List Step} {ballot : Ballot}
variable {top slot : Slot} {r : Replica} {s : LiveSlot} {event : Event} {kind : LiveSlot → Prop}

/-! ### Trying a slot again -/

/-- A slot that is marked as awaited is not marked again. -/
theorem await_of_awaited (hs : r.live[slot]? = some s) (hawaited : s.awaited = true) :
    r.await slot = (r, []) := by
  have hmarked : { s with awaited := true } = s := by
    rw [← hawaited]
  have hmem : slot ∈ r.live := Std.ExtTreeMap.mem_iff_isSome_getElem?.2 (by simp [hs])
  have hopened : r.openSlot slot = (r, []) := by
    simp [openSlot, hmem]
  simp only [await, hopened, hs, Option.getD_some, hmarked, putSlot_self hs]

namespace Steady

/-- Trying a slot once more does nothing. -/
theorem advance_eq (h : r.Steady top ∅) (hs : r.live[slot]? = some s) :
    r.advance slot s = (r, [], .pending) := by
  unfold Replica.advance
  split
  · rfl
  · rename_i id c hx
    obtain ⟨hexec, before, hbefore, hmarked⟩ := h.waits hs (by simp [hx]) (by simp)
    have hprior : 0 < slot ∧ ¬r.isExecuted (slot - 1) := by
      constructor
      · exact Nat.zero_lt_of_lt hexec
      · simpa [isExecuted] using Nat.le_sub_one_of_lt hexec
    rw [if_pos hprior, await_of_awaited hbefore hmarked]

/-- A slot under way that takes nothing new from an event stays as it is, and so does the
replica. -/
theorem route_eq (h : r.Steady top ∅) (hs : r.live[slot]? = some s)
    (happly : r.apply slot s event = (r, s, [])) : r.route slot event = (r, []) := by
  have hprocess : r.process slot s event = (r, [], .pending) := by
    unfold Replica.process
    split
    · rfl
    · simp only [happly, putSlot_self hs, h.advance_eq hs, List.append_nil]
  unfold Replica.route
  split
  · rfl
  · rename_i hclaim
    obtain ⟨-, ⟨rfl, hs', rfl⟩ | ⟨-, hnone, -⟩⟩ := claim_cases hclaim
    · obtain rfl := Option.some.inj (hs.symm.trans hs')
      simp [hprocess]
    · simp [hs] at hnone

/-- An event changes nothing if its slot has executed, or is under way with a record that takes
nothing new from it. -/
theorem route_of_carries (h : r.Steady top ∅) (hcarries : r.Carries slot kind)
    (htaken : ∀ s, kind s → r.apply slot s event = (r, s, [])) : r.route slot event = (r, []) := by
  rcases hcarries with hexec | ⟨s, hs, hkind⟩
  · exact route_of_passed (fun hs => (h.bounds hs).1) (.inr hexec)
  · exact h.route_eq hs (htaken s hkind)

end Steady

/-! ### Events that have been taken -/

/-- A slot that has accepted takes nothing from an accept. -/
theorem apply_accept_of_accepted (slot : Slot) (a : Accept) (h : s.accepted = true) :
    r.apply slot s (.accept a) = (r, s, []) := by
  simp [apply, onAccept, h]

/-- A committed slot takes nothing from a commit. -/
theorem apply_commit_of_committed (slot : Slot) (b : Commit) (h : s.phase = .commit) :
    r.apply slot s (.commit b) = (r, s, []) := by
  simp [apply, commitSlot, h]

/-- A slot that has heard a replica takes nothing from its acknowledgement. -/
theorem apply_acceptAck_of_hears (slot : Slot) (a : AcceptAck) (h : s.Hears a.replica) :
    r.apply slot s (.acceptAck a) = (r, s, []) := by
  obtain ⟨certificate, hcertificate, hheard⟩ := h
  have hsame : { s with certificate := some certificate } = s := by
    rw [← hcertificate]
  simp [apply, onAcceptAck, hcertificate, hheard.add_eq, hsame]

/-! ### Messages that change nothing -/

/-- Steps that change nothing one by one change nothing together. -/
theorem performAll_eq_self (hsteps : ∀ step ∈ steps, r.perform step = (r, [])) :
    r.performAll steps = (r, []) := by
  induction steps with
  | nil => rfl
  | cons step steps ih =>
      rw [List.forall_mem_cons] at hsteps
      simp only [performAll, hsteps.1, ih hsteps.2, List.append_nil]

/-- A message whose response is to do what changes nothing changes nothing. -/
theorem handle_eq_self (hrespond : r.respond m = ⟨r, steps, none⟩)
    (hsteps : ∀ step ∈ steps, r.perform step = (r, [])) : r.handle m = (r, []) := by
  simp only [handle, hrespond, performAll_eq_self hsteps]

/-- An acknowledgement concerns the leader alone. -/
theorem handle_acceptAck_eq_self (a : AcceptAck)
    (hroute : r.isLeader = true → r.route a.slot (.acceptAck a) = (r, [])) :
    r.handle (.acceptAck a) = (r, []) := by
  refine handle_eq_self rfl fun step hstep => ?_
  unfold ackSteps at hstep
  split at hstep
  · rename_i hleader
    obtain rfl := List.mem_singleton.1 hstep
    exact hroute hleader
  · simp at hstep

/-- A message of another epoch changes nothing. -/
theorem Steady.handle_of_stale (h : r.Steady top ∅) (hballot : m.ballot? = some ballot)
    (hstale : ballot ≠ r.config.ballot) : r.handle m = (r, []) := by
  have hroute : ∀ {slot event}, event.ballot? = some ballot →
      r.route slot event = (r, []) := fun hevent =>
    route_of_passed (fun hs => (h.bounds hs).1) (.inl (by simp [Event.isStale, hevent, hstale]))
  cases m with
  | accept a =>
      refine handle_eq_self rfl fun step hstep => ?_
      rw [List.mem_singleton.1 hstep]
      exact hroute hballot
  | acceptAck a => exact handle_acceptAck_eq_self a fun _ => hroute hballot
  | commit b =>
      refine handle_eq_self rfl fun step hstep => ?_
      rw [List.mem_singleton.1 hstep]
      exact hroute hballot
  | _ => simp [ReplicaMessage.ballot?] at hballot

end Replica

end WitnessReplication
