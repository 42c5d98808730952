import WitnessReplication.Proofs.Clock

/-!
# Alarms

The alarms of a clock stand in the order of their instants (`Clock.Sorted`), so when the clock moves
those that are due are the first ones, and just their tasks are woken. A task that is woken is in
the queue once.
-/

namespace WitnessReplication.Clock

variable {τ : Type} [DecidableEq τ] {c : Clock τ} {t task : τ} {instant : Nat} {a : Nat × τ}
variable {requests : List (Request τ)}

/-- The alarms stand in the order of their instants. -/
def Sorted (c : Clock τ) : Prop := c.alarms.Pairwise fun a b => a.1 ≤ b.1

/-! ### The first alarms -/

omit [DecidableEq τ] in
/-- In order, the alarms up to an instant are the first ones. -/
theorem takeWhile_le {alarms : List (Nat × τ)} (h : alarms.Pairwise fun a b => a.1 ≤ b.1)
    (instant : Nat) :
    alarms.takeWhile (fun a => decide (a.1 ≤ instant)) =
        alarms.filter (fun a => decide (a.1 ≤ instant)) ∧
      alarms.dropWhile (fun a => decide (a.1 ≤ instant)) =
        alarms.filter (fun a => decide (instant < a.1)) := by
  induction alarms with
  | nil => exact ⟨rfl, rfl⟩
  | cons first alarms ih =>
      obtain ⟨hfirst, hrest⟩ := List.pairwise_cons.1 h
      by_cases hle : first.1 ≤ instant
      · obtain ⟨htake, hdrop⟩ := ih hrest
        simp [hle, Nat.not_lt.2 hle, htake, hdrop]
      · have hlt : instant < first.1 := Nat.lt_of_not_le hle
        have hlater : ∀ a ∈ alarms, instant < a.1 :=
          fun a ha => Nat.lt_of_lt_of_le hlt (hfirst a ha)
        refine ⟨?_, ?_⟩
        · rw [List.takeWhile_cons_of_neg (by simpa using hlt), eq_comm, List.filter_eq_nil_iff]
          intro a ha
          rcases List.mem_cons.1 ha with rfl | ha
          · simpa using hlt
          · simpa using hlater a ha
        · rw [List.dropWhile_cons_of_neg (by simpa using hlt), eq_comm, List.filter_eq_self]
          intro a ha
          rcases List.mem_cons.1 ha with rfl | ha
          · simpa using hlt
          · simpa using hlater a ha

/-! ### Setting alarms and putting them off -/

@[simp] theorem alarms_wake (c : Clock τ) (task : τ) : (c.wake task).alarms = c.alarms := by
  unfold wake
  split <;> rfl

theorem mem_alarms_calm : a ∈ (c.calm task).alarms ↔ a ∈ c.alarms ∧ a.2 ≠ task := by
  simp [calm]

theorem Sorted.calm (h : c.Sorted) (task : τ) : (c.calm task).Sorted :=
  List.Pairwise.filter _ h

/-- A task has one alarm. -/
theorem mem_alarms_setAlarm (h : c.Sorted) (hlt : c.now < instant) :
    a ∈ (c.setAlarm task instant).alarms ↔ a = (instant, task) ∨ a ∈ c.alarms ∧ a.2 ≠ task := by
  obtain ⟨htake, hdrop⟩ := takeWhile_le (h.calm task) instant
  have hnow : ¬instant ≤ (c.calm task).now := Nat.not_le.2 hlt
  rw [setAlarm, if_neg hnow]
  simp only [htake, hdrop, List.mem_append, List.mem_cons, List.mem_filter, decide_eq_true_eq,
    mem_alarms_calm]
  constructor
  · rintro (⟨hmem, -⟩ | rfl | ⟨hmem, -⟩)
    · exact .inr hmem
    · exact .inl rfl
    · exact .inr hmem
  · rintro (rfl | hmem)
    · exact .inr (.inl rfl)
    · rcases Nat.lt_or_ge instant a.1 with hlater | hle
      · exact .inr (.inr ⟨hmem, hlater⟩)
      · exact .inl ⟨hmem, hle⟩

/-- An alarm that is not due wakes nobody. -/
theorem ready_setAlarm (hlt : c.now < instant) : (c.setAlarm task instant).ready = c.ready := by
  have hnow : ¬instant ≤ (c.calm task).now := Nat.not_le.2 hlt
  rw [setAlarm, if_neg hnow]
  rfl

theorem Sorted.setAlarm (h : c.Sorted) (task : τ) (instant : Nat) :
    (c.setAlarm task instant).Sorted := by
  obtain ⟨htake, hdrop⟩ := takeWhile_le (h.calm task) instant
  unfold Clock.setAlarm
  dsimp only
  split
  · unfold Sorted
    rw [alarms_wake]
    exact h.calm task
  · have hcalm : (c.calm task).alarms.Pairwise fun a b => a.1 ≤ b.1 := h.calm task
    unfold Sorted
    simp only [htake, hdrop]
    rw [List.pairwise_append, List.pairwise_cons]
    refine ⟨hcalm.filter _, ⟨fun b hb => ?_, hcalm.filter _⟩, fun a ha b hb => ?_⟩
    · exact Nat.le_of_lt (of_decide_eq_true (List.mem_filter.1 hb).2)
    · have hle : a.1 ≤ instant := of_decide_eq_true (List.mem_filter.1 ha).2
      rcases List.mem_cons.1 hb with rfl | hb
      · exact hle
      · exact Nat.le_trans hle (Nat.le_of_lt (of_decide_eq_true (List.mem_filter.1 hb).2))

theorem Sorted.grantAll (h : c.Sorted) (requests : List (Request τ)) :
    (c.grantAll requests).Sorted := by
  induction requests generalizing c with
  | nil => exact h
  | cons request requests ih =>
      refine ih ?_
      cases request with
      | wake task =>
          unfold Sorted
          rw [grant, alarms_wake]
          exact h
      | alarm task instant => exact h.setAlarm task instant
      | calm task => exact h.calm task

theorem grantAll_concat (c : Clock τ) (requests : List (Request τ)) (request : Request τ) :
    c.grantAll (requests ++ [request]) = (c.grantAll requests).grant request := by
  simp [Clock.grantAll]

/-! ### Requests without alarms -/

/-- Where no alarm is asked for, the alarms that stay are those that are not put off. -/
theorem mem_alarms_grantAll (h : ∀ task instant, .alarm task instant ∉ requests) :
    a ∈ (c.grantAll requests).alarms ↔ a ∈ c.alarms ∧ .calm a.2 ∉ requests := by
  induction requests generalizing c with
  | nil => simp [grantAll]
  | cons request requests ih =>
      have hrest : ∀ task instant, .alarm task instant ∉ requests :=
        fun task instant hmem => h task instant (List.mem_cons_of_mem _ hmem)
      refine (ih hrest (c := c.grant request)).trans ?_
      cases request with
      | wake task => simp [grant]
      | alarm task instant => exact absurd List.mem_cons_self (h task instant)
      | calm task => simp [grant, mem_alarms_calm, and_assoc]

/-- Where no alarm is asked for, just the tasks that are to be woken come into the queue. -/
theorem mem_ready_grantAll_iff (h : ∀ task instant, .alarm task instant ∉ requests) :
    t ∈ (c.grantAll requests).ready ↔ t ∈ c.ready ∨ .wake t ∈ requests := by
  induction requests generalizing c with
  | nil => simp [grantAll]
  | cons request requests ih =>
      have hrest : ∀ task instant, .alarm task instant ∉ requests :=
        fun task instant hmem => h task instant (List.mem_cons_of_mem _ hmem)
      refine (ih hrest (c := c.grant request)).trans ?_
      cases request with
      | wake task => simp [grant, mem_ready_wake, or_assoc]
      | alarm task instant => exact absurd List.mem_cons_self (h task instant)
      | calm task => simp [grant, Clock.calm]

/-! ### The queue -/

theorem nodup_ready_wake (h : c.ready.Nodup) (task : τ) : (c.wake task).ready.Nodup := by
  unfold wake
  split
  · exact h
  · rename_i hnew
    rw [List.nodup_append]
    refine ⟨h, by simp, fun a ha b hb => ?_⟩
    rw [List.mem_singleton.1 hb]
    rintro rfl
    exact hnew ha

theorem nodup_ready_grantAll (h : c.ready.Nodup) (requests : List (Request τ)) :
    (c.grantAll requests).ready.Nodup := by
  induction requests generalizing c with
  | nil => exact h
  | cons request requests ih =>
      refine ih ?_
      cases request with
      | wake task => exact nodup_ready_wake h task
      | alarm task instant =>
          unfold grant setAlarm
          dsimp only
          split
          · exact nodup_ready_wake (c := c.calm task) h task
          · exact h
      | calm task => exact h

/-! ### Moving the clock -/

theorem ready_wakeAll (due : List (Nat × τ)) (c : Clock τ) :
    (c.ready.Nodup → (due.foldl (fun c a => c.wake a.2) c).ready.Nodup) ∧
      (due.foldl (fun c a => c.wake a.2) c).alarms = c.alarms ∧
      ∀ t, t ∈ (due.foldl (fun c a => c.wake a.2) c).ready ↔ t ∈ c.ready ∨ ∃ a ∈ due, a.2 = t := by
  induction due generalizing c with
  | nil => simp
  | cons a due ih =>
      obtain ⟨hnodup, halarms, hmem⟩ := ih (c.wake a.2)
      refine ⟨fun h => hnodup (nodup_ready_wake h a.2), halarms.trans (alarms_wake c a.2),
        fun t => ?_⟩
      simp [hmem, mem_ready_wake, or_assoc, eq_comm]

theorem nodup_ready_moveTo (h : c.ready.Nodup) (instant : Nat) :
    (c.moveTo instant).ready.Nodup :=
  (ready_wakeAll _ _).1 h

/-- When the clock moves, the alarms that are due wake their tasks. -/
theorem mem_ready_moveTo_iff (h : c.Sorted) :
    t ∈ (c.moveTo instant).ready ↔ t ∈ c.ready ∨ ∃ due ≤ instant, (due, t) ∈ c.alarms := by
  rw [moveTo, (ready_wakeAll _ _).2.2, (takeWhile_le h instant).1]
  refine or_congr_right ⟨?_, ?_⟩
  · rintro ⟨⟨due, t⟩, hmem, rfl⟩
    rw [List.mem_filter, decide_eq_true_eq] at hmem
    exact ⟨due, hmem.2, hmem.1⟩
  · rintro ⟨due, hle, hmem⟩
    exact ⟨(due, t), List.mem_filter.2 ⟨hmem, decide_eq_true hle⟩, rfl⟩

theorem alarms_moveTo (h : c.Sorted) (instant : Nat) :
    (c.moveTo instant).alarms = c.alarms.filter fun a => decide (instant < a.1) := by
  rw [moveTo, (ready_wakeAll _ _).2.1]
  exact (takeWhile_le h instant).2

theorem mem_alarms_moveTo (h : c.Sorted) :
    a ∈ (c.moveTo instant).alarms ↔ a ∈ c.alarms ∧ instant < a.1 := by
  rw [alarms_moveTo h, List.mem_filter, decide_eq_true_eq]

theorem Sorted.moveTo (h : c.Sorted) (instant : Nat) : (c.moveTo instant).Sorted := by
  unfold Sorted
  rw [alarms_moveTo h]
  exact List.Pairwise.filter _ h

omit [DecidableEq τ] in
/-- The next alarm is the first one. -/
theorem Sorted.nextAlarm_le (h : c.Sorted) {next : Nat} (hnext : c.nextAlarm? = some next)
    (ha : a ∈ c.alarms) : next ≤ a.1 := by
  unfold nextAlarm? at hnext
  cases halarms : c.alarms with
  | nil => simp [halarms] at ha
  | cons first alarms =>
      rw [halarms, List.head?_cons, Option.map_some, Option.some_inj] at hnext
      subst hnext
      rw [Sorted, halarms] at h
      rw [halarms] at ha
      rcases List.mem_cons.1 ha with rfl | ha
      · exact Nat.le_refl _
      · exact (List.pairwise_cons.1 h).1 a ha

omit [DecidableEq τ] in
theorem nextAlarm_eq_none (h : c.nextAlarm? = none) : c.alarms = [] := by
  rw [nextAlarm?, Option.map_eq_none_iff, List.head?_eq_none_iff] at h
  exact h

end WitnessReplication.Clock
