import WitnessReplication.Proofs.Replica.Frames

/-!
# What an event leaves in the record of its slot

An event tells the slot which command it is for, or gets the slot on. A proposal always tells it,
and an accept does if it is the first (`LiveSlot.told`); apart from that, only the phase of the slot
and the acknowledgements that it counts change (`record_apply`). A slot that comes to be committed is
put among the committed slots, and no other slot is (`marks_apply`).
-/

namespace WitnessReplication.Replica

variable {r : Replica} {slot other : Slot} {s : LiveSlot}

theorem slot_commitSlot (r : Replica) (slot : Slot) (s : LiveSlot) :
    (r.commitSlot slot s).2.1 = { s with phase := .commit } := by
  unfold commitSlot
  split
  · rename_i hphase
    rw [← hphase]
  · rfl

/-! ### The command of a slot -/

/-- The record of a slot with what an event tells it of its command. -/
def LiveSlot.told (s : LiveSlot) : Event → LiveSlot
  | .propose p =>
    { s with
      id := some p.id
      command := some p.command
      weak := p.weak
      sync := p.sync
      reply := p.reply
      causal := p.causal
      accepted := true }
  | .accept m =>
    if s.accepted then s
    else { s with accepted := true, id := some m.id, command := m.command.or s.command, weak := m.weak }
  | _ => s

/-- Apart from what an event tells a slot, it changes only how far the slot has come. -/
theorem record_apply (r : Replica) (slot : Slot) (s : LiveSlot) (event : Event) :
    ∃ phase certificate,
      (r.apply slot s event).2.1 = { s.told event with phase, certificate } := by
  cases event with
  | propose p =>
      simp only [apply, onPropose]
      split
      · simp only [commitAsLeader, slot_commitSlot]
        exact ⟨_, _, rfl⟩
      · exact ⟨_, _, rfl⟩
  | accept m =>
      simp only [apply, onAccept, LiveSlot.told]
      split
      · exact ⟨_, _, rfl⟩
      · exact ⟨_, _, rfl⟩
  | acceptAck m =>
      simp only [apply, onAcceptAck]
      split
      · exact ⟨_, _, rfl⟩
      · split
        · simp only [commitAsLeader, slot_commitSlot]
          exact ⟨_, _, rfl⟩
        · exact ⟨_, _, rfl⟩
  | commit m =>
      simp only [apply, slot_commitSlot]
      exact ⟨_, _, rfl⟩
  | wake => exact ⟨_, _, rfl⟩

theorem applied_apply (r : Replica) (slot : Slot) (s : LiveSlot) (event : Event) :
    (r.apply slot s event).2.1.applied = s.applied := by
  obtain ⟨_, _, hrecord⟩ := r.record_apply slot s event
  rw [hrecord]
  cases event with
  | accept m =>
      simp only [LiveSlot.told]
      split <;> rfl
  | _ => rfl

theorem awaited_apply (r : Replica) (slot : Slot) (s : LiveSlot) (event : Event) :
    (r.apply slot s event).2.1.awaited = s.awaited := by
  obtain ⟨_, _, hrecord⟩ := r.record_apply slot s event
  rw [hrecord]
  cases event with
  | accept m =>
      simp only [LiveSlot.told]
      split <;> rfl
  | _ => rfl

/-- A slot that has accepted its command has done so after every event. -/
theorem accepted_apply (r : Replica) (slot : Slot) (event : Event) (h : s.accepted = true) :
    (r.apply slot s event).2.1.accepted = true := by
  obtain ⟨_, _, hrecord⟩ := r.record_apply slot s event
  rw [hrecord]
  cases event with
  | propose p => rfl
  | accept m => simp [LiveSlot.told, h]
  | _ => exact h

/-! ### Committed slots -/

/-- An event leaves the committed slots, and how far its slot has come, as they are, or commits the
slot. -/
def Marks (r : Replica) (slot : Slot) (s : LiveSlot) (result : Replica × LiveSlot × List Effect) :
    Prop :=
  (result.1.committed = r.committed ∧ (result.2.1.phase = .commit ↔ s.phase = .commit)) ∨
    (result.1.committed = r.committed.insert slot ∧ result.2.1.phase = .commit)

theorem marks_commitSlot {s' : LiveSlot} (h : s'.phase = .commit ↔ s.phase = .commit) :
    r.Marks slot s (r.commitSlot slot s') := by
  unfold commitSlot
  split
  · exact .inl ⟨rfl, h⟩
  · exact .inr ⟨rfl, rfl⟩

theorem marks_apply (r : Replica) (slot : Slot) (s : LiveSlot) (event : Event) :
    r.Marks slot s (r.apply slot s event) := by
  have hbegun : (if s.phase = .start then .accept else s.phase) = Phase.commit ↔
      s.phase = .commit := by
    cases s.phase <;> decide
  cases event with
  | propose p =>
      simp only [apply, onPropose]
      split
      · exact marks_commitSlot hbegun
      · exact .inl ⟨rfl, hbegun⟩
  | accept a =>
      simp only [apply, onAccept, order]
      split
      · exact .inl ⟨rfl, Iff.rfl⟩
      · split <;> exact .inl ⟨rfl, hbegun⟩
  | acceptAck a =>
      simp only [apply, onAcceptAck]
      split
      · exact .inl ⟨rfl, Iff.rfl⟩
      · split
        · exact marks_commitSlot Iff.rfl
        · exact .inl ⟨rfl, Iff.rfl⟩
  | commit b => exact marks_commitSlot Iff.rfl
  | wake => exact .inl ⟨rfl, Iff.rfl⟩

/-- A slot that is committed is so after every event. -/
theorem phase_apply (r : Replica) (slot : Slot) (event : Event) (h : s.phase = .commit) :
    (r.apply slot s event).2.1.phase = .commit := by
  obtain ⟨-, hphase⟩ | ⟨-, hphase⟩ := r.marks_apply slot s event
  · exact hphase.2 h
  · exact hphase

/-- An event commits at most its own slot. -/
theorem of_mem_committed_apply {event : Event}
    (h : other ∈ (r.apply slot s event).1.committed) : other = slot ∨ other ∈ r.committed := by
  obtain ⟨hcommitted, -⟩ | ⟨hcommitted, -⟩ := r.marks_apply slot s event
  · exact .inr (hcommitted ▸ h)
  · rw [hcommitted] at h
    rcases Std.ExtTreeSet.mem_insert.1 h with heq | hold
    · exact .inl (Std.LawfulEqOrd.eq_of_compare heq).symm
    · exact .inr hold

end WitnessReplication.Replica
