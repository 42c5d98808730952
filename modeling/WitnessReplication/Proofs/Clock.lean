import WitnessReplication.Clock

/-!
# Tasks that are in the queue

A task that has been woken stays in the queue until it looks: neither requests nor the passing of
time take it out. A request puts one task in the queue at most.
-/

namespace WitnessReplication

namespace Clock

variable {τ : Type} [DecidableEq τ] {c : Clock τ} {t task : τ} {instant : Nat}

theorem mem_ready_wake : t ∈ (c.wake task).ready ↔ t ∈ c.ready ∨ t = task := by
  unfold wake
  split
  · rename_i hmem
    refine ⟨.inl, fun h => h.elim id ?_⟩
    rintro rfl
    exact hmem
  · simp

theorem mem_ready_setAlarm (h : t ∈ c.ready) : t ∈ (c.setAlarm task instant).ready := by
  unfold setAlarm
  dsimp only
  split
  · exact mem_ready_wake.2 (.inl h)
  · exact h

theorem mem_ready_grant (h : t ∈ c.ready) (request : Request τ) : t ∈ (c.grant request).ready := by
  cases request with
  | wake task => exact mem_ready_wake.2 (.inl h)
  | alarm task instant => exact mem_ready_setAlarm h
  | calm task => exact h

theorem mem_ready_grantAll (h : t ∈ c.ready) (requests : List (Request τ)) :
    t ∈ (c.grantAll requests).ready := by
  induction requests generalizing c with
  | nil => exact h
  | cons request requests ih => exact ih (mem_ready_grant h request)

/-- A task that is to be woken is in the queue. -/
theorem mem_ready_of_wake {requests : List (Request τ)} (h : .wake t ∈ requests) :
    t ∈ (c.grantAll requests).ready := by
  induction requests generalizing c with
  | nil => simp at h
  | cons request requests ih =>
      rcases List.mem_cons.1 h with rfl | h
      · exact mem_ready_grantAll (mem_ready_wake.2 (.inr rfl)) requests
      · exact ih h

theorem mem_ready_moveTo (h : t ∈ c.ready) : t ∈ (c.moveTo instant).ready := by
  have hfold : ∀ (due : List (Nat × τ)) (c : Clock τ), t ∈ c.ready →
      t ∈ (due.foldl (fun c alarm => c.wake alarm.2) c).ready := by
    intro due
    induction due with
    | nil => exact fun c h => h
    | cons alarm due ih => exact fun c h => ih _ (mem_ready_wake.2 (.inl h))
  exact hfold _ _ h

/-- The alarm of a task that is the only one to have set one. -/
theorem setAlarm_of_alarms_eq_nil (h : c.alarms = []) (hlt : c.now < instant) :
    c.setAlarm task instant = { c with alarms := [(instant, task)] } := by
  have hnow : ¬instant ≤ (c.calm task).now := Nat.not_le.2 hlt
  rw [setAlarm, if_neg hnow]
  simp [calm, h]

/-! ### The length of the queue -/

theorem length_ready_wake (c : Clock τ) (task : τ) :
    (c.wake task).ready.length ≤ c.ready.length + 1 := by
  unfold wake
  split
  · exact Nat.le_succ _
  · exact Nat.le_of_eq List.length_append

/-- Every request puts one task in the queue at most. -/
theorem length_ready_grant (c : Clock τ) (request : Request τ) :
    (c.grant request).ready.length ≤ c.ready.length + 1 := by
  cases request with
  | wake task => exact length_ready_wake c task
  | alarm task instant =>
      simp only [grant, setAlarm]
      split
      · exact length_ready_wake (c.calm task) task
      · exact Nat.le_succ _
  | calm task => exact Nat.le_succ _

theorem length_ready_grantAll (c : Clock τ) (requests : List (Request τ)) :
    (c.grantAll requests).ready.length ≤ c.ready.length + requests.length := by
  induction requests generalizing c with
  | nil => exact Nat.le_refl _
  | cons request requests ih =>
      calc ((c.grant request).grantAll requests).ready.length
          ≤ (c.grant request).ready.length + requests.length := ih _
        _ ≤ c.ready.length + 1 + requests.length :=
            Nat.add_le_add_right (length_ready_grant c request) _
        _ = c.ready.length + (requests.length + 1) := by omega

end Clock

/-- Where no task is in the queue, nothing happens. -/
theorem Run.settleWithin_of_ready {σ τ : Type} [DecidableEq τ] {r : Run σ τ} (p : Program σ τ)
    (hready : r.clock.ready = []) (bound : Nat) : settleWithin p bound r = r := by
  cases bound with
  | zero => rfl
  | succ bound => simp only [settleWithin, hready]

namespace Run

/-! ### What looks keep -/

section Keeping

variable {σ τ : Type} [DecidableEq τ] {p : Program σ τ} {r : Run σ τ} {P : σ → Prop}

/-- What every look keeps stays so while tasks run. -/
theorem settleWithin_keeps (hlook : ∀ now task s, P s → P (p.look now task s).1) (h : P r.state)
    (bound : Nat) : P (settleWithin p bound r).state := by
  induction bound generalizing r with
  | zero => exact h
  | succ bound ih =>
      unfold settleWithin
      split
      · exact h
      · exact ih (hlook _ _ _ h)

theorem settle_keeps (hlook : ∀ now task s, P s → P (p.look now task s).1) (h : P r.state) :
    P (settle p r).state := settleWithin_keeps hlook h _

theorem approach_keeps (hlook : ∀ now task s, P s → P (p.look now task s).1) (h : P r.state)
    (instant : Nat) : P (approach p instant r).state := by
  fun_induction approach p instant r with
  | case1 r => exact h
  | case2 r next _ _ ih => exact ih (settle_keeps hlook h)
  | case3 r => exact h

theorem advance_keeps (hlook : ∀ now task s, P s → P (p.look now task s).1) (h : P r.state)
    (span : Nat) : P (advance p span r).state :=
  settle_keeps hlook (approach_keeps hlook (settle_keeps hlook h) _)

end Keeping

end Run

end WitnessReplication
