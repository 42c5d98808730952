import WitnessReplication.Proofs.Replica.Following

/-!
# Word of commits and executions

A replica gives word whenever a slot is newly committed or executed: what a change commits or
executes is among its effects (`Change.tells`). Whoever waits for such word misses nothing.
-/

namespace WitnessReplication.Replica

variable {r r' : Replica} {slot : Slot} {s : LiveSlot} {event : Event} {effects : List Effect}
variable {fits : Slot → Event → Prop}

/-- The slots under way have not executed, and the committed ones are on record. -/
structure Tidy (r : Replica) : Prop where
  executed_le : ∀ {slot : Slot} {s}, r.live[slot]? = some s → r.executed ≤ slot
  committed : ∀ {slot : Slot} {s}, r.live[slot]? = some s → s.phase = .commit →
    slot ∈ r.committed

/-- All that has been committed or executed since then is among the effects. -/
structure Tells (r : Replica) (effects : List Effect) (r' : Replica) : Prop where
  committed : ∀ slot, r'.isCommitted slot = true →
    r.isCommitted slot = true ∨ .committed slot ∈ effects
  executed : ∀ slot, r'.isExecuted slot = true →
    r.isExecuted slot = true ∨ .executed slot ∈ effects

/-- A slot is put on record when it is committed, and word of it is given then. -/
structure Commits (r : Replica) (slot : Slot) (result : Replica × LiveSlot × List Effect) :
    Prop where
  phase : result.2.1.phase = .commit → slot ∈ result.1.committed
  kept : ∀ other ∈ r.committed, other ∈ result.1.committed
  told : ∀ other ∈ result.1.committed, other ∈ r.committed ∨ .committed other ∈ result.2.2

theorem tidy_initial (id : ReplicaId) (config : Config) : (initial id config).Tidy where
  executed_le hs := by simp [initial] at hs
  committed hs := by simp [initial] at hs

theorem Tidy.current (h : r.Tidy) : r.Current := fun _ _ => h.executed_le

/-- Being tidy depends on the slots under way and the progress only. -/
theorem Tidy.congr (h : r.Tidy) (hlive : r'.live = r.live) (hexec : r'.executed = r.executed)
    (hcommitted : r'.committed = r.committed) : r'.Tidy where
  executed_le := h.current.congr hlive hexec _ _
  committed hs hphase := by rw [hcommitted]; exact h.committed (hlive ▸ hs) hphase

theorem Tidy.putSlot (h : r.Tidy) (hexec : r.executed ≤ slot)
    (hcommitted : s.phase = .commit → slot ∈ r.committed) : (r.putSlot slot s).Tidy where
  executed_le := h.current.putSlot hexec _ _
  committed hs hphase := by
    rcases of_live_putSlot hs with ⟨rfl, rfl⟩ | hs
    · exact hcommitted hphase
    · exact h.committed hs hphase

theorem Tells.refl_of_eq (hcommitted : r'.committed = r.committed)
    (hexec : r'.executed = r.executed) : r.Tells effects r' where
  committed slot hslot := .inl (by simpa [isCommitted, isExecuted, hcommitted, hexec] using hslot)
  executed slot hslot := .inl (by simpa [isExecuted, hexec] using hslot)

/-! ### Commits -/

theorem commits_unchanged {result : Replica × LiveSlot × List Effect}
    (hs : result.2.1.phase = .commit → slot ∈ r.committed)
    (hcommitted : result.1.committed = r.committed) : r.Commits slot result where
  phase hphase := hcommitted ▸ hs hphase
  kept _ hother := hcommitted ▸ hother
  told _ hother := .inl (hcommitted ▸ hother)

theorem commits_commitSlot (hs : s.phase = .commit → slot ∈ r.committed) :
    r.Commits slot (r.commitSlot slot s) := by
  unfold commitSlot
  split
  · exact commits_unchanged hs rfl
  · constructor
    case phase => exact fun _ => Std.ExtTreeSet.mem_insert_self
    case kept => exact fun other hother => Std.ExtTreeSet.mem_insert.2 (.inr hother)
    case told =>
      intro other hother
      rcases Std.ExtTreeSet.mem_insert.1 hother with heq | hother
      · obtain rfl := Std.LawfulEqOrd.eq_of_compare heq
        exact .inr (List.mem_singleton.2 rfl)
      · exact .inl hother

theorem commits_commitAsLeader (hs : s.phase = .commit → slot ∈ r.committed) :
    r.Commits slot (r.commitAsLeader slot s) where
  phase := (commits_commitSlot hs).phase
  kept := (commits_commitSlot hs).kept
  told other hother := ((commits_commitSlot hs).told other hother).imp_right
    (List.mem_cons_of_mem _)

/-- An event commits at most its slot, and gives word of it. -/
theorem commits_apply (hs : s.phase = .commit → slot ∈ r.committed) (event : Event) :
    r.Commits slot (r.apply slot s event) := by
  have hstarted : ∀ s' : LiveSlot, s'.phase = (if s.phase = .start then .accept else s.phase) →
      s'.phase = .commit → slot ∈ r.committed := by
    intro s' hs' hphase
    rw [hs'] at hphase
    split at hphase
    · simp at hphase
    · exact hs hphase
  cases event with
  | propose p =>
      simp only [apply, onPropose]
      split
      · refine commits_commitAsLeader ?_
        exact hstarted _ rfl
      · exact commits_unchanged (hstarted _ rfl) rfl
  | accept a =>
      simp only [apply, onAccept, order]
      split
      · exact commits_unchanged hs rfl
      · split
        · exact commits_unchanged (hstarted _ rfl) rfl
        · exact commits_unchanged (hstarted _ rfl) rfl
  | acceptAck a =>
      simp only [apply, onAcceptAck]
      split
      · exact commits_unchanged hs rfl
      · split
        · exact commits_commitAsLeader hs
        · exact commits_unchanged hs rfl
  | commit b => exact commits_commitSlot hs
  | wake => exact commits_unchanged hs rfl

/-! ### Changes -/

/-- A change leaves a replica tidy and gives word of what it commits and executes. -/
theorem Change.tells (h : r.Tidy) (hc : Change fits r effects r') :
    r'.Tidy ∧ r.Tells effects r' := by
  cases hc with
  | opened hlive hexec => exact ⟨h.putSlot hexec (by simp), .refl_of_eq rfl rfl⟩
  | @took slot s event hs happlied hstale hfit =>
      have hcommits := commits_apply (h.committed hs) event
      have happly : (r.apply slot s event).1.Tidy := by
        constructor
        case executed_le => exact h.current.apply event _ _
        case committed =>
          intro other s' hs' hphase
          obtain ⟨_, _, hframe⟩ := r.apply_frame slot s event
          exact hcommits.kept other (h.committed (by rwa [hframe] at hs') hphase)
      refine ⟨happly.putSlot (by rw [executed_apply]; exact h.executed_le hs) hcommits.phase, ?_⟩
      constructor
      case committed =>
        intro other hother
        have hother : other ∈ (r.apply slot s event).1.committed ∨ other < r.executed := by
          simpa [isCommitted, putSlot, isExecuted, executed_apply] using hother
        rcases hother with hother | hother
        · exact (hcommits.told other hother).imp_left fun hmem => by simp [isCommitted, hmem]
        · exact .inl (by simp [isCommitted, isExecuted, hother])
      case executed =>
        intro other hother
        exact .inl (by simpa [isExecuted, putSlot, executed_apply] using hother)
  | awaited hs hexec =>
      exact ⟨h.putSlot hexec fun hphase => h.committed hs hphase, .refl_of_eq rfl rfl⟩
  | @executed slot s id c hs hx hturn =>
      have hexec : r.executed = slot := Nat.le_antisymm (h.executed_le hs) hturn
      have hcommitted := h.committed hs (LiveSlot.executable?_eq_some hx).2.1
      -- the slot that executes was committed, and its execution is told
      have hreached : ∀ other, other < slot + 1 → r.isExecuted other = true ∨ other = slot := by
        intro other hlt
        rcases Nat.lt_succ_iff_lt_or_eq.1 hlt with hlt | heq
        · exact .inl (by simpa [isExecuted, hexec] using hlt)
        · exact .inr heq
      constructor
      case left =>
        constructor
        case executed_le => exact h.current.execute hs hturn _ _
        case committed =>
          intro other s' hs' hphase
          have hne : slot ≠ other := by
            rintro rfl
            simp at hs'
          have hmem := h.committed (of_live_executed hs') hphase
          simpa [execute_eq, dropSlot, Std.ExtTreeSet.mem_erase, hne] using hmem
      case right =>
        constructor
        case committed =>
          intro other hother
          refine .inl ?_
          have hother : (slot ≠ other ∧ other ∈ r.committed) ∨ other < slot + 1 := by
            simpa [isCommitted, isExecuted, execute_eq, dropSlot, Std.ExtTreeSet.mem_erase]
              using hother
          rcases hother with ⟨-, hother⟩ | hlt
          · simp [isCommitted, hother]
          · rcases hreached other hlt with hold | rfl
            · simp [isCommitted, hold]
            · simp [isCommitted, hcommitted]
        case executed =>
          intro other hother
          rw [isExecuted, executed_execute, decide_eq_true_eq] at hother
          refine (hreached other hother).imp_right ?_
          rintro rfl
          rw [effects_execute_eq]
          exact List.mem_append_left _ List.mem_cons_self

end WitnessReplication.Replica
