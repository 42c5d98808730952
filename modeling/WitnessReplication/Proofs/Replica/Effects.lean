import WitnessReplication.Proofs.Backing
import WitnessReplication.Proofs.Replica.Changes

/-!
# What a replica sends

An event that a slot takes lets the replica announce a commit, acknowledge an accept or tell a
client that its command is ordered. Only execution answers with results, and only at the leader.
Accepts are never sent from within a slot.
-/

namespace WitnessReplication.Replica

variable {r r' : Replica} {slot : Slot} {s : LiveSlot} {event : Event} {effects : List Effect}

theorem effects_commitSlot (r : Replica) (slot : Slot) (s : LiveSlot) :
    ∀ e ∈ (r.commitSlot slot s).2.2, e = .committed slot := by
  unfold commitSlot
  split <;> simp

theorem effects_commitAsLeader (r : Replica) (slot : Slot) (s : LiveSlot) :
    ∀ e ∈ (r.commitAsLeader slot s).2.2,
      e = .committed slot ∨ ∃ body, e = .broadcast (.commit body) := by
  intro e he
  simp only [commitAsLeader, List.mem_cons] at he
  rcases he with rfl | he
  · exact .inr ⟨_, rfl⟩
  · exact .inl (effects_commitSlot r slot s e he)

/-- Counting a slot as accepted only sends verdicts of the replica. -/
theorem effects_order (r : Replica) (slot : Slot) (id : CommandId) (weak : Bool) :
    ∀ e ∈ (r.order slot id weak).2, ∃ id', e = r.orderedAck id' := by
  intro e he
  unfold order at he
  split at he
  · simp at he
  · simp only [List.mem_map] at he
    obtain ⟨entry, -, rfl⟩ := he
    exact ⟨entry.1, rfl⟩

/-- What a slot sends when it takes an event. -/
theorem effects_apply {e : Effect} (h : e ∈ (r.apply slot s event).2.2) :
    e = .committed slot ∨ (∃ body, e = .broadcast (.commit body)) ∨
      ∃ m, event = .accept m ∧ ((∃ body, e = .acceptAck body) ∨ ∃ id, e = r.orderedAck id) := by
  have hcommit : ∀ s, e ∈ (r.commitAsLeader slot s).2.2 →
      e = .committed slot ∨ (∃ body, e = .broadcast (.commit body)) ∨
        ∃ m, event = .accept m ∧ ((∃ body, e = .acceptAck body) ∨ ∃ id, e = r.orderedAck id) := by
    intro s hmem
    rcases effects_commitAsLeader r slot s e hmem with h | h
    · exact .inl h
    · exact .inr (.inl h)
  cases event with
  | propose p =>
      simp only [apply, onPropose] at h
      split at h
      · exact hcommit _ h
      · simp at h
  | accept m =>
      refine .inr (.inr ⟨m, rfl, ?_⟩)
      simp only [apply, onAccept] at h
      split at h
      · simp at h
      · rcases List.mem_cons.1 h with rfl | h
        · exact .inl ⟨_, rfl⟩
        · exact .inr (effects_order r slot m.id m.weak e h)
  | acceptAck m =>
      simp only [apply, onAcceptAck] at h
      split at h
      · simp at h
      · split at h
        · exact hcommit _ h
        · simp at h
  | commit m => exact .inl (effects_commitSlot r slot s e h)
  | wake => simp [apply] at h

/-- Only the leader answers, and only with the result. -/
theorem mem_answers {id : CommandId} {value : Value} {waiting : Bool} {e : Effect}
    (h : e ∈ r.answers s id value waiting) :
    r.isLeader = true ∧
      (e = r.syncReply id value ∨ ∃ causal, e = r.weakReply id value causal) := by
  unfold answers at h
  split at h
  · simp at h
  · rename_i hleader
    refine ⟨by simpa using hleader, ?_⟩
    split at h
    · split at h
      · exact .inr ⟨_, List.mem_singleton.1 h⟩
      · simp at h
    · split at h
      · exact .inl (List.mem_singleton.1 h)
      · simp at h

/-- Executing a slot reports that, and then answers. -/
theorem effects_execute_eq (r : Replica) (slot : Slot) (s : LiveSlot) (id : CommandId)
    (c : Command) : (r.execute slot s id c).2 =
      (.executed slot :: if s.weak then [.weakExecuted id.client] else []) ++
        (r.execute slot s id c).1.answers s id (r.store.execute c).2 (r.syncWaiters.contains id) :=
  rfl

/-- What executing a slot sends. -/
theorem effects_execute {id : CommandId} {c : Command} {e : Effect}
    (h : e ∈ (r.execute slot s id c).2) :
    e = .executed slot ∨ e = .weakExecuted id.client ∨
      e ∈ (r.execute slot s id c).1.answers s id (r.store.execute c).2
        (r.syncWaiters.contains id) := by
  rw [effects_execute_eq] at h
  rcases List.mem_append.1 h with hmem | hmem
  · rcases List.mem_cons.1 hmem with hmem | hmem
    · exact .inl hmem
    · split at hmem
      · exact .inr (.inl (List.mem_singleton.1 hmem))
      · simp at hmem
  · exact .inr (.inr hmem)

/-- No change announces a slot for a request. -/
theorem Change.request?_eq_none {fits : Slot → Event → Prop} (h : Change fits r effects r') :
    ∀ e ∈ effects, e.request? = none := by
  intro e he
  cases h with
  | opened hlive hexec =>
      obtain rfl := List.mem_singleton.1 he
      rfl
  | took hs happlied hstale hfit =>
      rcases effects_apply he with rfl | ⟨_, rfl⟩ | ⟨_, _, ⟨_, rfl⟩ | ⟨_, rfl⟩⟩ <;> rfl
  | awaited hs hexec => simp at he
  | executed hs hx hturn =>
      rcases effects_execute he with rfl | rfl | he
      · rfl
      · rfl
      · obtain ⟨-, rfl | ⟨_, rfl⟩⟩ := mem_answers he <;> rfl

end WitnessReplication.Replica
