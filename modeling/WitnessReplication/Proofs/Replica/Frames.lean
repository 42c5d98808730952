import WitnessReplication.Proofs.Replica.Changes

/-!
# What the operations leave as it is

Each operation of a replica changes a few of its fields. A frame lemma names those fields and says
that the replica is otherwise unchanged.
-/

namespace WitnessReplication.Replica

variable (r : Replica) (id : CommandId) (c : Command)

theorem retire_frame : ∃ witness witnessed, r.retire id = { r with witness, witnessed } := by
  unfold retire
  split
  · exact ⟨_, _, rfl⟩
  · exact ⟨_, _, rfl⟩

/-- A retired command is out of the record. -/
theorem witnessed_retire : (r.retire id).witnessed = r.witnessed.erase id := by
  unfold retire
  split
  · rename_i hnone
    apply Std.ExtTreeMap.ext_getElem?
    intro id'
    rw [Std.ExtTreeMap.getElem?_erase]
    split
    · rename_i heq
      rw [← Std.LawfulEqOrd.eq_of_compare heq, hnone]
    · rfl
  · rfl

/-- What retiring a command leaves depends on what was witnessed only. -/
theorem retire_eq (r' : Replica) (hwitness : r'.witness = r.witness)
    (hwitnessed : r'.witnessed = r.witnessed) :
    r'.retire id = { r' with
      witness := (r.retire id).witness
      witnessed := r.witnessed.erase id } := by
  rw [← witnessed_retire]
  unfold retire
  rw [hwitnessed]
  split
  · rw [← hwitness, ← hwitnessed]
  · rw [hwitness]

/-- What is left of the writes depends on what was remembered of them only. -/
theorem clearPending_eq (r' : Replica) (h : r'.pendingWrites = r.pendingWrites) :
    r'.clearPending id c = { r' with pendingWrites := (r.clearPending id c).pendingWrites } := by
  unfold clearPending
  dsimp only
  rw [h]
  split
  · rfl
  · rw [← h]

/-- What is remembered after a write depends on what was remembered before it only. -/
theorem recordPending_eq (r' : Replica) (h : r'.pendingWrites = r.pendingWrites) :
    r'.recordPending id c =
      { r' with pendingWrites := (r.recordPending id c).pendingWrites } := by
  unfold recordPending
  dsimp only
  rw [h]
  split
  · rw [← h]
  · rfl

theorem recordPending_frame :
    ∃ pendingWrites, r.recordPending id c = { r with pendingWrites } :=
  ⟨_, r.recordPending_eq id c r rfl⟩

theorem recordWitness_frame (strong : Bool) :
    ∃ witness witnessed, (r.recordWitness id c strong).1 = { r with witness, witnessed } := by
  unfold recordWitness
  dsimp only
  split
  · obtain ⟨witness, witnessed, h⟩ := retire_frame
      { r with
        witness := (r.witness.record id c strong).1
        witnessed := r.witnessed.insert id ⟨c, strong⟩ } id
    exact ⟨witness, witnessed, h⟩
  · exact ⟨_, _, rfl⟩

/-- An event changes its slot, the accepted prefix and the committed slots. -/
theorem apply_frame (slot : Slot) (s : LiveSlot) (event : Event) :
    ∃ committed ordered, (r.apply slot s event).1 = { r with committed, ordered } := by
  have hcommit : ∀ s, ∃ committed ordered,
      (r.commitSlot slot s).1 = { r with committed, ordered } := by
    intro s
    unfold commitSlot
    split
    · exact ⟨_, _, rfl⟩
    · exact ⟨_, _, rfl⟩
  cases event with
  | propose p =>
      simp only [apply, onPropose]
      split
      · exact hcommit _
      · exact ⟨_, _, rfl⟩
  | accept m =>
      simp only [apply, onAccept, order]
      split
      · exact ⟨_, _, rfl⟩
      · split
        · exact ⟨_, _, rfl⟩
        · exact ⟨_, _, rfl⟩
  | acceptAck m =>
      simp only [apply, onAcceptAck]
      split
      · exact ⟨_, _, rfl⟩
      · split
        · exact hcommit _
        · exact ⟨_, _, rfl⟩
  | commit m => exact hcommit s
  | wake => exact ⟨_, _, rfl⟩

theorem pendingWrites_clearPending :
    (r.clearPending id c).pendingWrites =
      if c.isWrite && r.pendingWrites[ClientKey.mk id.client c.key]?.any
          fun write => decide (write.seq ≤ id.seq) then
        r.pendingWrites.erase ⟨id.client, c.key⟩
      else r.pendingWrites := by
  unfold clearPending
  dsimp only
  split <;> rfl

variable (slot : Slot) (s : LiveSlot)

/-- What executing a slot comes to, field by field. -/
theorem execute_eq : (r.execute slot s id c).1 =
    { r with
      live := r.live.insert slot { s with applied := true }
      store := (r.store.execute c).1
      executed := slot + 1
      values := r.values.insert id (r.store.execute c).2
      pendingWrites := (r.clearPending id c).pendingWrites
      witness := if r.witness.isLeader then r.witness.release slot id c (!s.weak)
        else (r.retire id).witness
      witnessed := if r.witness.isLeader then r.witnessed else r.witnessed.erase id
      committed := r.committed.erase slot
      weakExecuted := if s.weak then
          r.weakExecuted.insert id.client (max id.seq ((r.weakExecuted[id.client]?).getD id.seq))
        else r.weakExecuted
      syncWaiters := if r.isLeader && !s.weak then r.syncWaiters.erase id else r.syncWaiters } := by
  have hsettled : ∀ r' : Replica, r'.witness = r.witness → r'.witnessed = r.witnessed →
      (if r'.witness.isLeader then
        { r' with witness := r'.witness.release slot id c (!s.weak) } else r'.retire id) =
      { r' with
        witness := if r.witness.isLeader then r.witness.release slot id c (!s.weak)
          else (r.retire id).witness
        witnessed := if r.witness.isLeader then r.witnessed else r.witnessed.erase id } := by
    intro r' hwitness hwitnessed
    rw [hwitness]
    split
    · rw [← hwitnessed]
    · exact r.retire_eq id r' hwitness hwitnessed
  have hsettled := hsettled
    { r.putSlot slot { s with applied := true } with
      store := (r.store.execute c).1
      values := r.values.insert id (r.store.execute c).2 } rfl rfl
  have hclear := r.clearPending_eq id c
    { r.putSlot slot { s with applied := true } with
      store := (r.store.execute c).1
      values := r.values.insert id (r.store.execute c).2
      witness := if r.witness.isLeader then r.witness.release slot id c (!s.weak)
        else (r.retire id).witness
      witnessed := if r.witness.isLeader then r.witnessed else r.witnessed.erase id } rfl
  unfold execute
  dsimp only at hsettled hclear ⊢
  rw [hsettled, hclear]
  rfl

/-- Executing a slot changes the store, the results and the progress, and what was pending. -/
theorem execute_frame : ∃ witness witnessed committed weakExecuted syncWaiters,
    (r.witness.isLeader = true → witness = r.witness.release slot id c (!s.weak)) ∧
      (r.execute slot s id c).1 =
        { r with
          live := r.live.insert slot { s with applied := true }
          store := (r.store.execute c).1
          executed := slot + 1
          values := r.values.insert id (r.store.execute c).2
          pendingWrites := (r.clearPending id c).pendingWrites
          witness, witnessed, committed, weakExecuted, syncWaiters } :=
  ⟨_, _, _, _, _, fun hleader => if_pos hleader, r.execute_eq id c slot s⟩

theorem id_execute : (r.execute slot s id c).1.id = r.id := by
  obtain ⟨_, _, _, _, _, -, h⟩ := r.execute_frame id c slot s
  rw [h]

theorem config_execute : (r.execute slot s id c).1.config = r.config := by
  obtain ⟨_, _, _, _, _, -, h⟩ := r.execute_frame id c slot s
  rw [h]

theorem executed_execute : ((r.execute slot s id c).1.dropSlot slot).executed = slot + 1 := by
  obtain ⟨_, _, _, _, _, -, h⟩ := r.execute_frame id c slot s
  rw [h]
  rfl

/-- Executing a slot takes it out of those under way and leaves the others. -/
theorem getElem?_live_executed (other : Slot) :
    ((r.execute slot s id c).1.dropSlot slot).live[other]? =
      if slot = other then none else r.live[other]? := by
  rw [live_dropSlot, live_execute, Std.ExtTreeMap.getElem?_erase, Std.ExtTreeMap.getElem?_insert]
  simp only [Std.compare_eq_iff_eq]
  split
  · rfl
  · rfl

variable (event : Event)

theorem id_apply : (r.apply slot s event).1.id = r.id := by
  obtain ⟨_, _, h⟩ := r.apply_frame slot s event
  rw [h]

theorem config_apply : (r.apply slot s event).1.config = r.config := by
  obtain ⟨_, _, h⟩ := r.apply_frame slot s event
  rw [h]

theorem executed_apply : (r.apply slot s event).1.executed = r.executed := by
  obtain ⟨_, _, h⟩ := r.apply_frame slot s event
  rw [h]

variable {r slot s} {other : Slot} {s' : LiveSlot}

/-- Where a record has been written, each record is that one or was there before. -/
theorem of_live_putSlot (h : (r.putSlot slot s).live[other]? = some s') :
    (other = slot ∧ s' = s) ∨ r.live[other]? = some s' := by
  rw [live_putSlot, Std.ExtTreeMap.getElem?_insert] at h
  split at h
  · rename_i heq
    exact .inl ⟨(Std.LawfulEqOrd.eq_of_compare heq).symm, (Option.some.inj h).symm⟩
  · exact .inr h

variable {id c}

/-- Where a slot has executed, each record was there before. -/
theorem of_live_executed (h : ((r.execute slot s id c).1.dropSlot slot).live[other]? = some s') :
    r.live[other]? = some s' := by
  rw [getElem?_live_executed] at h
  split at h
  · simp at h
  · exact h

/-! ### Changes -/

variable {fits : Slot → Event → Prop} {r' : Replica} {effects : List Effect}

/-- A change changes the slots under way, those that are committed and the accepted prefix only, or
a slot executes. -/
theorem Change.frame_or_executed (hc : Change fits r effects r') :
    (∃ live committed ordered, r' = { r with live, committed, ordered }) ∨
      ∃ slot s id c, r.live[slot]? = some s ∧ s.executable? = some (id, c) ∧ slot ≤ r.executed ∧
        r' = (r.execute slot s id c).1.dropSlot slot := by
  cases hc with
  | opened hlive hexec => exact .inl ⟨_, _, _, rfl⟩
  | @took slot s event hs happlied hstale hfit =>
      obtain ⟨_, _, hframe⟩ := r.apply_frame slot s event
      rw [hframe]
      exact .inl ⟨_, _, _, rfl⟩
  | awaited hs hexec => exact .inl ⟨_, _, _, rfl⟩
  | @executed slot s id c hs hx hturn => exact .inr ⟨slot, s, id, c, hs, hx, hturn, rfl⟩

/-- No change makes a replica another one, or configures it differently. -/
theorem Change.same (hc : Change fits r effects r') : r'.id = r.id ∧ r'.config = r.config := by
  cases hc with
  | opened hlive hexec => exact ⟨rfl, rfl⟩
  | took hs happlied hstale hfit => exact ⟨id_apply .., config_apply ..⟩
  | awaited hs hexec => exact ⟨rfl, rfl⟩
  | executed hs hx hturn => exact ⟨id_execute .., config_execute ..⟩

theorem Changes.same (hc : Changes fits r effects r') : r'.id = r.id ∧ r'.config = r.config :=
  hc.preserve (P := fun r' _ => r'.id = r.id ∧ r'.config = r.config)
    (fun hp hlast => ⟨hlast.same.1.trans hp.1, hlast.same.2.trans hp.2⟩) [] ⟨rfl, rfl⟩

/-! ### Slots under way -/

theorem live_apply (r : Replica) (slot : Slot) (s : LiveSlot) (event : Event) :
    (r.apply slot s event).1.live = r.live := by
  obtain ⟨_, _, h⟩ := r.apply_frame slot s event
  rw [h]

/-- What a new record has, and keeps when its slot takes an event or is awaited, every change leaves
to the records of all slots under way. -/
theorem Change.forall_live {K : Slot → LiveSlot → Prop} (hc : Change fits r effects r')
    (hopened : ∀ slot, K slot {})
    (htook : ∀ {slot s event}, fits slot event → K slot s → K slot (r.apply slot s event).2.1)
    (hawaited : ∀ {slot s}, K slot s → K slot { s with awaited := true })
    (h : ∀ slot s, r.live[slot]? = some s → K slot s) :
    ∀ slot s, r'.live[slot]? = some s → K slot s := by
  intro other s' hs'
  cases hc with
  | @opened slot hlive hexec =>
      rcases of_live_putSlot hs' with ⟨rfl, rfl⟩ | hs'
      · exact hopened other
      · exact h other s' hs'
  | @took slot s event hs happlied hstale hfit =>
      rcases of_live_putSlot hs' with ⟨rfl, rfl⟩ | hs'
      · exact htook hfit (h other s hs)
      · exact h other s' (live_apply r slot s event ▸ hs')
  | @awaited slot s hs hexec =>
      rcases of_live_putSlot hs' with ⟨rfl, rfl⟩ | hs'
      · exact hawaited (h other s hs)
      · exact h other s' hs'
  | executed hs hx hturn => exact h other s' (of_live_executed hs')

/-- No slot under way has executed. -/
def Current (r : Replica) : Prop :=
  ∀ (slot : Slot) (s : LiveSlot), r.live[slot]? = some s → r.executed ≤ slot

namespace Current

theorem congr (h : r.Current) (hlive : r'.live = r.live) (hexec : r'.executed = r.executed) :
    r'.Current := by
  intro other s' hs'
  rw [hexec]
  exact h other s' (hlive ▸ hs')

theorem putSlot (h : r.Current) (hexec : r.executed ≤ slot) : (r.putSlot slot s).Current := by
  intro other s' hs'
  rcases of_live_putSlot hs' with ⟨rfl, -⟩ | hs'
  · exact hexec
  · exact h other s' hs'

theorem apply (h : r.Current) : (r.apply slot s event).1.Current := by
  obtain ⟨_, _, hframe⟩ := r.apply_frame slot s event
  rw [hframe]
  exact h.congr rfl rfl

/-- When the next slot executes, the slots after it are left. -/
theorem execute (h : r.Current) (hs : r.live[slot]? = some s) (hturn : slot ≤ r.executed) :
    ((r.execute slot s id c).1.dropSlot slot).Current := by
  intro other s' hs'
  rw [getElem?_live_executed] at hs'
  split at hs'
  · simp at hs'
  · rename_i hne
    rw [executed_execute]
    have hexec : r.executed = slot := Nat.le_antisymm (h slot s hs) hturn
    exact Nat.lt_of_le_of_ne (hexec ▸ h other s' hs') hne

end Current

theorem Change.current (h : r.Current) (hc : Change fits r effects r') : r'.Current := by
  cases hc with
  | opened hlive hexec => exact h.putSlot hexec
  | @took slot s event hs happlied hstale hfit =>
      refine (h.apply event).putSlot ?_
      rw [executed_apply]
      exact h slot s hs
  | awaited hs hexec => exact h.putSlot hexec
  | executed hs hx hturn => exact h.execute hs hturn

/-- Slots only go on to execute. -/
theorem Change.le_executed (h : r.Current) (hc : Change fits r effects r') :
    r.executed ≤ r'.executed := by
  cases hc with
  | opened hlive hexec => exact Nat.le_refl _
  | took hs happlied hstale hfit => exact Nat.le_of_eq (executed_apply ..).symm
  | awaited hs hexec => exact Nat.le_refl _
  | executed hs hx hturn =>
      rw [executed_execute]
      exact Nat.le_succ_of_le (h _ _ hs)

end WitnessReplication.Replica
