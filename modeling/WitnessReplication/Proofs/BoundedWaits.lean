import Mathlib.Data.List.Induction
import WitnessReplication.Proofs.Registry.Resting

/-!
# Bounded waits

However waits, receivers, changes of the counter, notifications and time follow each other, every
wait ends when it should, and as it should (`Registry.Waiters.bounded_waits`).

A run is given by its steps. Its settled moments are the instants of each step, those in between
included while time passes (`Moment.IsSettled`). A waiter checks its goal when it starts, when the
channel of its key is closed, and when its deadline has come (`Checks`). It is notified at the first
settled moment, not after its deadline, at which it checks a goal that holds. Where there is none,
it times out at its deadline (`Ends`). What happens after its deadline has come makes no difference
to it, be it at the same instant.

A run tracks what its steps say (`Tracks`): one more step stops just the waits that it should
(`Stops`), since waiters at rest settle in order.
-/

namespace WitnessReplication.Registry.Waiters

/-! ### Runs -/

/-- What happens to waiters on a clock. -/
inductive Step where
  | wait (name : Nat) (key : Int) (span : Nat) (goal : Int)
  | subscribe (key : Int)
  | set (count : Int)
  | notify (key : Int)
  | advance (span : Nat)
  deriving DecidableEq, Repr

/-- Waiters after one more step. -/
def perform (r : Run Waiters Nat) : Step → Run Waiters Nat
  | .wait name key span goal => wait r name key span goal
  | .subscribe key => subscribe r key
  | .set count => set r count
  | .notify key => notify r key
  | .advance span => advance r span

/-- Waiters that are taken through steps. -/
def after (steps : List Step) : Run Waiters Nat := steps.foldl perform start

/-- The time that passes in a step. -/
def Step.span : Step → Nat
  | .advance span => Clock.measured span
  | _ => 0

/-- The counter after a step. -/
def Step.count (count : Int) : Step → Int
  | .set count => count
  | _ => count

/-- A step closes the channel of a key, where the counter stands at `count`: it notifies, or it
starts a wait on the key whose goal holds. A waiter on the key that finds its goal only later has
been woken by a close in the same step. -/
def Step.Closes (count key : Int) : Step → Prop
  | .wait _ k _ goal => key = k ∧ goal ≤ count
  | .notify k => key = k
  | _ => False

/-- The wait that a step starts, with the number of the step. -/
def Step.begins (i now : Nat) : Step → List (Nat × Waiter)
  | .wait name key span goal => [(i, ⟨name, key, now + span, goal⟩)]
  | _ => []

/-- The time that passes in steps. -/
def elapsed (steps : List Step) : Nat := (steps.map Step.span).sum

/-- The counter after steps. -/
def count (steps : List Step) : Int := steps.foldl Step.count 0

/-- The waits that steps start, each with the number of its step. -/
def begun (steps : List Step) : List (Nat × Waiter) :=
  steps.zipIdx.flatMap fun s => s.1.begins s.2 (elapsed (steps.take s.2))

/-! ### Settled moments -/

/-- A moment of a run: the number of a step and an instant. -/
structure Moment where
  step : Nat
  instant : Nat
  deriving DecidableEq, Repr

/-- The waiters have settled at a moment: at an instant of a step. -/
def Moment.IsSettled (steps : List Step) (m : Moment) : Prop :=
  m.step < steps.length ∧ elapsed (steps.take m.step) ≤ m.instant ∧
    m.instant ≤ elapsed (steps.take (m.step + 1))

/-- Moments follow each other step by step, and in a step as time passes. -/
def Moment.Before (m m' : Moment) : Prop :=
  m.step < m'.step ∨ m.step = m'.step ∧ m.instant < m'.instant

/-- The goal of a wait holds at a moment. -/
def Holds (steps : List Step) (w : Waiter) (m : Moment) : Prop :=
  w.goal ≤ count (steps.take (m.step + 1))

/-- A wait that started in step `i` checks its goal at a moment: it starts, the channel of its key
is closed, or its deadline has come. As it checks in every step that closes its channel, a channel
that has been closed since the last check has been closed in this step. -/
def Checks (steps : List Step) (i : Nat) (w : Waiter) (m : Moment) : Prop :=
  m.step = i ∨
    (∃ s, steps[m.step]? = some s ∧ s.Closes (count (steps.take (m.step + 1))) w.key) ∨
    w.deadline ≤ m.instant

/-- Nothing ends a wait at a moment: it does not find its goal, and its deadline has not come. -/
def Stays (steps : List Step) (i : Nat) (w : Waiter) (m : Moment) : Prop :=
  ¬(Holds steps w m ∧ Checks steps i w m) ∧ m.instant < w.deadline

/-- A wait that started in step `i` has gone on until a settled moment. -/
structure Reaches (steps : List Step) (i : Nat) (w : Waiter) (m : Moment) : Prop where
  settled : m.IsSettled steps
  start_le : i ≤ m.step
  stays : ∀ m' : Moment, m'.IsSettled steps → i ≤ m'.step → m'.Before m → Stays steps i w m'

/-- How and when a wait ends that started in step `i`. -/
inductive Ends (steps : List Step) (i : Nat) (w : Waiter) : Ended → Prop
  /-- At the first settled moment, not after its deadline, at which it checks a goal that holds. -/
  | notified {m : Moment} (hm : Reaches steps i w m) (hgoal : Holds steps w m)
      (hchecks : Checks steps i w m) (hdue : m.instant ≤ w.deadline) :
      Ends steps i w ⟨w.name, .notified, m.instant⟩
  /-- At its deadline, its goal false. -/
  | timedOut {m : Moment} (hm : Reaches steps i w m) (hdue : m.instant = w.deadline)
      (hgoal : ¬Holds steps w m) : Ends steps i w ⟨w.name, .timedOut, w.deadline⟩

/-- A wait that started in step `i` is still under way. -/
def Waiting (steps : List Step) (i : Nat) (w : Waiter) : Prop :=
  ∀ m : Moment, m.IsSettled steps → i ≤ m.step → Stays steps i w m

/-! ### One more step -/

variable {steps : List Step} {s : Step} {i n : Nat} {w x : Waiter} {m : Moment} {e : Ended}

theorem after_concat (steps : List Step) (s : Step) :
    after (steps ++ [s]) = perform (after steps) s := by
  rw [after, List.foldl_append]
  rfl

theorem elapsed_concat (steps : List Step) (s : Step) :
    elapsed (steps ++ [s]) = elapsed steps + s.span := by
  simp [elapsed]

theorem elapsed_le_concat (steps : List Step) (s : Step) :
    elapsed steps ≤ elapsed (steps ++ [s]) := by
  rw [elapsed_concat]
  exact Nat.le_add_right _ _

theorem elapsed_take_le (steps : List Step) (k : Nat) : elapsed (steps.take k) ≤ elapsed steps := by
  have happend := congrArg elapsed (List.take_append_drop k steps)
  rw [elapsed, List.map_append, List.sum_append] at happend
  exact Nat.le.intro happend

theorem count_concat (steps : List Step) (s : Step) :
    count (steps ++ [s]) = s.count (count steps) := by
  simp [count]

theorem begun_concat (steps : List Step) (s : Step) :
    begun (steps ++ [s]) = begun steps ++ s.begins steps.length (elapsed steps) := by
  have hold : ∀ p ∈ steps.zipIdx, p.1.begins p.2 (elapsed ((steps ++ [s]).take p.2)) =
      p.1.begins p.2 (elapsed (steps.take p.2)) := by
    intro p hp
    have hlt : p.2 < steps.length := by simpa using (List.mem_zipIdx hp).2.1
    rw [List.take_append_of_le_length (Nat.le_of_lt hlt)]
  rw [begun, List.zipIdx_append, List.flatMap_append, List.flatMap_congr hold]
  simp [begun]

/-- A wait that has begun was started by a step. -/
theorem of_mem_begun (h : (i, w) ∈ begun steps) : ∃ name key span goal,
    steps[i]? = some (.wait name key span goal) ∧
      w = ⟨name, key, elapsed (steps.take i) + span, goal⟩ := by
  obtain ⟨⟨s, j⟩, hs, hmem⟩ := List.mem_flatMap.1 h
  have hget : steps[j]? = some s := List.mem_zipIdx_iff_getElem?.1 hs
  cases s with
  | wait name key span goal =>
      obtain ⟨rfl, rfl⟩ : i = j ∧ w = _ := by simpa [Step.begins] using hmem
      exact ⟨name, key, span, goal, hget, rfl⟩
  | subscribe key => simp [Step.begins] at hmem
  | set count => simp [Step.begins] at hmem
  | notify key => simp [Step.begins] at hmem
  | advance span => simp [Step.begins] at hmem

theorem Step.eq_of_mem_begins {k now : Nat} (h : (i, w) ∈ s.begins k now) : i = k := by
  cases s with
  | wait name key span goal => exact congrArg Prod.fst (List.mem_singleton.1 h)
  | subscribe key => cases h
  | set count => cases h
  | notify key => cases h
  | advance span => cases h

theorem Step.eq_of_begins {k now : Nat} (h : s.begins k now = [(i, w)]) : i = k :=
  Step.eq_of_mem_begins (h ▸ List.mem_cons_self)

theorem getElem?_begun_concat : (begun (steps ++ [s]))[n]? = some (i, x) ↔
    (begun steps)[n]? = some (i, x) ∨
      n = (begun steps).length ∧ s.begins steps.length (elapsed steps) = [(i, x)] := by
  have hone : ∀ {l : List (Nat × Waiter)} {a p}, (l ++ [a])[n]? = some p ↔
      l[n]? = some p ∨ n = l.length ∧ [a] = [p] := by
    intro l a p
    rw [List.getElem?_append]
    split
    · rename_i hlt
      exact (or_iff_left fun hnew => Nat.ne_of_lt hlt hnew.1).symm
    · rename_i hge
      rw [List.getElem?_eq_none (Nat.le_of_not_lt hge), List.getElem?_singleton]
      split
      · have heq : n = l.length := by omega
        simp [heq]
      · have hne : n ≠ l.length := by omega
        simp [hne]
  rw [begun_concat]
  cases s with
  | wait name key span goal => exact hone
  | subscribe key => simp [Step.begins]
  | set count => simp [Step.begins]
  | notify key => simp [Step.begins]
  | advance span => simp [Step.begins]

theorem isSettled_concat : m.IsSettled (steps ++ [s]) ↔
    m.IsSettled steps ∨ m.step = steps.length ∧ elapsed steps ≤ m.instant ∧
      m.instant ≤ elapsed (steps ++ [s]) := by
  unfold Moment.IsSettled
  rcases Nat.lt_trichotomy m.step steps.length with hlt | heq | hgt
  · rw [List.take_append_of_le_length (Nat.le_of_lt hlt), List.take_append_of_le_length hlt]
    simp [hlt, Nat.ne_of_lt hlt, Nat.lt_succ_of_lt hlt]
  · rw [heq, List.take_left, List.take_of_length_le (by simp)]
    simp
  · simp [Nat.not_lt.2 (Nat.le_of_lt hgt), Nat.ne_of_gt hgt]
    omega

theorem isSettled_last (hpos : 0 < steps.length) :
    Moment.IsSettled steps ⟨steps.length - 1, elapsed steps⟩ := by
  have htake : steps.take (steps.length - 1 + 1) = steps := by
    rw [Nat.sub_add_cancel hpos, List.take_length]
  exact ⟨Nat.sub_lt hpos Nat.one_pos, elapsed_take_le steps _,
    Nat.le_of_eq (congrArg elapsed htake).symm⟩

theorem holds_concat_of_lt (hlt : m.step < steps.length) :
    Holds (steps ++ [s]) w m ↔ Holds steps w m := by
  rw [Holds, Holds, List.take_append_of_le_length hlt]

theorem holds_concat_of_eq (heq : m.step = steps.length) :
    Holds (steps ++ [s]) w m ↔ w.goal ≤ count (steps ++ [s]) := by
  rw [Holds, heq, List.take_of_length_le (by simp)]

theorem checks_concat_of_lt (hlt : m.step < steps.length) :
    Checks (steps ++ [s]) i w m ↔ Checks steps i w m := by
  rw [Checks, Checks, List.take_append_of_le_length hlt, List.getElem?_append_left hlt]

theorem checks_concat_of_eq (heq : m.step = steps.length) :
    Checks (steps ++ [s]) i w m ↔
      steps.length = i ∨ s.Closes (count (steps ++ [s])) w.key ∨ w.deadline ≤ m.instant := by
  rw [Checks, heq, List.take_of_length_le (by simp)]
  simp

theorem stays_concat_of_lt (hlt : m.step < steps.length) :
    Stays (steps ++ [s]) i w m ↔ Stays steps i w m := by
  rw [Stays, Stays, holds_concat_of_lt hlt, checks_concat_of_lt hlt]

/-- A step tells a waiter that its goal holds: it closes the channel of its key. -/
def Tells (steps : List Step) (s : Step) (x : Waiter) : Prop :=
  s.Closes (count (steps ++ [s])) x.key ∧ x.goal ≤ count (steps ++ [s])

/-- A step ends a wait: it tells the waiter that its goal holds, or the deadline comes. -/
def Stops (steps : List Step) (s : Step) (x : Waiter) (e : Ended) : Prop :=
  Tells steps s x ∧ e = x.verdict (count (steps ++ [s])) (elapsed steps) ∨
    ¬Tells steps s x ∧ x.deadline ≤ elapsed (steps ++ [s]) ∧
      e = x.verdict (count (steps ++ [s])) x.deadline

theorem exists_stops :
    (∃ e, Stops steps s x e) ↔ Tells steps s x ∨ x.deadline ≤ elapsed (steps ++ [s]) := by
  constructor
  · rintro ⟨e, ⟨htells, -⟩ | ⟨-, hdue, -⟩⟩
    · exact .inl htells
    · exact .inr hdue
  · intro h
    by_cases htells : Tells steps s x
    · exact ⟨_, .inl ⟨htells, rfl⟩⟩
    · exact ⟨_, .inr ⟨htells, h.resolve_left htells, rfl⟩⟩

section Waits

variable (hw : (i, w) ∈ begun (steps ++ [s]))
include hw

theorem start_le_of_mem_begun : i ≤ steps.length := by
  obtain ⟨name, key, span, goal, hget, -⟩ := of_mem_begun hw
  have hlt := (List.getElem?_eq_some_iff.1 hget).1
  rw [List.length_append, List.length_singleton] at hlt
  exact Nat.le_of_lt_succ hlt

/-- A wait whose goal holds when it starts closes the channel of its key. -/
theorem closes_of_start (hstart : steps.length = i) (hgoal : w.goal ≤ count (steps ++ [s])) :
    s.Closes (count (steps ++ [s])) w.key := by
  obtain ⟨name, key, span, goal, hget, rfl⟩ := of_mem_begun hw
  subst hstart
  rw [List.getElem?_concat_length, Option.some_inj] at hget
  subst hget
  exact ⟨rfl, hgoal⟩

/-- A wait that is under way has not run out of time. -/
theorem Waiting.le (h : Waiting steps i w) : elapsed steps ≤ w.deadline := by
  obtain ⟨name, key, span, goal, hget, rfl⟩ := of_mem_begun hw
  rcases Nat.lt_or_ge i steps.length with hlt | hge
  · exact Nat.le_of_lt (h _ (isSettled_last (Nat.zero_lt_of_lt hlt)) (Nat.le_pred_of_lt hlt)).2
  · obtain rfl : i = steps.length := Nat.le_antisymm (start_le_of_mem_begun hw) hge
    rw [List.take_left]
    exact Nat.le_add_right _ _

/-- Nothing ends a wait before its deadline unless the step tells the waiter. -/
theorem stays_concat_of_eq (heq : m.step = steps.length) (hnot : ¬Tells steps s w)
    (hlt : m.instant < w.deadline) : Stays (steps ++ [s]) i w m := by
  refine ⟨fun ⟨hgoal, hchecks⟩ => ?_, hlt⟩
  rw [holds_concat_of_eq heq] at hgoal
  rcases (checks_concat_of_eq heq).1 hchecks with hstart | hcloses | hdue
  · exact hnot ⟨closes_of_start hw hstart hgoal, hgoal⟩
  · exact hnot ⟨hcloses, hgoal⟩
  · exact Nat.not_le.2 hlt hdue

/-- A wait goes on in a step that does not end it. -/
theorem waiting_concat :
    Waiting (steps ++ [s]) i w ↔ Waiting steps i w ∧ ¬∃ e, Stops steps s w e := by
  rw [exists_stops, not_or, Nat.not_le]
  constructor
  · intro h
    have hlast := h ⟨steps.length, elapsed (steps ++ [s])⟩
      (isSettled_concat.2 (.inr ⟨rfl, elapsed_le_concat steps s, Nat.le_refl _⟩))
      (start_le_of_mem_begun hw)
    refine ⟨fun m hm hi => ?_, fun ⟨hcloses, hgoal⟩ => ?_, hlast.2⟩
    · exact (stays_concat_of_lt hm.1).1 (h m (isSettled_concat.2 (.inl hm)) hi)
    · exact hlast.1 ⟨(holds_concat_of_eq rfl).2 hgoal,
        (checks_concat_of_eq rfl).2 (.inr (.inl hcloses))⟩
  · rintro ⟨h, hnot, hlt⟩ m hm hi
    rcases isSettled_concat.1 hm with hm | ⟨heq, -, hle⟩
    · exact (stays_concat_of_lt hm.1).2 (h m hm hi)
    · exact stays_concat_of_eq hw heq hnot (Nat.lt_of_le_of_lt hle hlt)

omit hw in
theorem reaches_concat_of_lt (hlt : m.step < steps.length) :
    Reaches (steps ++ [s]) i w m ↔ Reaches steps i w m := by
  have hearlier : ∀ {m' : Moment}, m'.Before m → m'.step < steps.length := by
    rintro m' (hbefore | ⟨heq, -⟩)
    · exact Nat.lt_trans hbefore hlt
    · exact heq ▸ hlt
  have hsettled : ∀ {m' : Moment}, m'.step < steps.length →
      (m'.IsSettled (steps ++ [s]) ↔ m'.IsSettled steps) := by
    intro m' hlt'
    rw [isSettled_concat]
    exact or_iff_left fun hnew => Nat.ne_of_lt hlt' hnew.1
  constructor
  · intro h
    refine ⟨(hsettled hlt).1 h.settled, h.start_le, fun m' hm' hi hbefore => ?_⟩
    have hlt' := hearlier hbefore
    exact (stays_concat_of_lt hlt').1 (h.stays m' ((hsettled hlt').2 hm') hi hbefore)
  · intro h
    refine ⟨(hsettled hlt).2 h.settled, h.start_le, fun m' hm' hi hbefore => ?_⟩
    have hlt' := hearlier hbefore
    exact (stays_concat_of_lt hlt').2 (h.stays m' ((hsettled hlt').1 hm') hi hbefore)

omit hw in
/-- A wait that has gone on until a moment of the last step was under way before. -/
theorem Reaches.waiting (h : Reaches (steps ++ [s]) i w m) (heq : m.step = steps.length) :
    Waiting steps i w := fun m' hm' hi =>
  (stays_concat_of_lt hm'.1).1
    (h.stays m' (isSettled_concat.2 (.inl hm')) hi (.inl (heq ▸ hm'.1)))

/-- A wait that is under way goes on in the next step until something ends it. -/
theorem Waiting.reaches (h : Waiting steps i w) {instant : Nat}
    (hfirst : elapsed steps ≤ instant) (hlast : instant ≤ elapsed (steps ++ [s]))
    (hstays : ∀ earlier, elapsed steps ≤ earlier → earlier < instant →
      Stays (steps ++ [s]) i w ⟨steps.length, earlier⟩) :
    Reaches (steps ++ [s]) i w ⟨steps.length, instant⟩ where
  settled := isSettled_concat.2 (.inr ⟨rfl, hfirst, hlast⟩)
  start_le := start_le_of_mem_begun hw
  stays := by
    rintro ⟨k, earlier⟩ hm hi hbefore
    rcases isSettled_concat.1 hm with hm | ⟨rfl, hle, -⟩
    · exact (stays_concat_of_lt hm.1).2 (h _ hm hi)
    · exact hstays earlier hle (hbefore.resolve_left (Nat.lt_irrefl _)).2

omit hw in
/-- What has ended stays so. -/
theorem Ends.concat (h : Ends steps i w e) : Ends (steps ++ [s]) i w e := by
  cases h with
  | notified hm hgoal hchecks hdue =>
      have hlt := hm.settled.1
      exact .notified ((reaches_concat_of_lt hlt).2 hm) ((holds_concat_of_lt hlt).2 hgoal)
        ((checks_concat_of_lt hlt).2 hchecks) hdue
  | timedOut hm hdue hgoal =>
      have hlt := hm.settled.1
      exact .timedOut ((reaches_concat_of_lt hlt).2 hm) hdue
        (mt (holds_concat_of_lt hlt).1 hgoal)

/-- A wait that is under way ends in a step that stops it. -/
theorem Waiting.ends (h : Waiting steps i w) (hstops : Stops steps s w e) :
    Ends (steps ++ [s]) i w e := by
  have hle := h.le hw
  rcases hstops with ⟨⟨hcloses, hgoal⟩, rfl⟩ | ⟨hnot, hdue, rfl⟩
  · have hm : Reaches (steps ++ [s]) i w ⟨steps.length, elapsed steps⟩ :=
      h.reaches hw (Nat.le_refl _) (elapsed_le_concat steps s)
        fun earlier hge hlt => absurd hlt (Nat.not_lt.2 hge)
    rw [Waiter.verdict, if_pos hgoal]
    exact .notified hm ((holds_concat_of_eq rfl).2 hgoal)
      ((checks_concat_of_eq rfl).2 (.inr (.inl hcloses))) hle
  · have hm : Reaches (steps ++ [s]) i w ⟨steps.length, w.deadline⟩ :=
      h.reaches hw hle hdue fun earlier _ hlt => stays_concat_of_eq hw rfl hnot hlt
    by_cases hgoal : w.goal ≤ count (steps ++ [s])
    · rw [Waiter.verdict, if_pos hgoal]
      exact .notified hm ((holds_concat_of_eq rfl).2 hgoal)
        ((checks_concat_of_eq rfl).2 (.inr (.inr (Nat.le_refl _)))) (Nat.le_refl _)
    · rw [Waiter.verdict, if_neg hgoal]
      exact .timedOut hm rfl (mt (holds_concat_of_eq rfl).1 hgoal)

/-- A wait that ends in a step was under way, and the step stops it. -/
theorem Ends.of_concat (h : Ends (steps ++ [s]) i w e) :
    Ends steps i w e ∨ Waiting steps i w ∧ Stops steps s w e := by
  cases h with
  | @notified m hm hgoal hchecks hdue =>
      rcases isSettled_concat.1 hm.settled with ⟨hlt, -⟩ | ⟨heq, hfirst, hlast⟩
      · exact .inl (.notified ((reaches_concat_of_lt hlt).1 hm) ((holds_concat_of_lt hlt).1 hgoal)
          ((checks_concat_of_lt hlt).1 hchecks) hdue)
      · refine .inr ⟨hm.waiting heq, ?_⟩
        rw [holds_concat_of_eq heq] at hgoal
        have hverdict : ∀ instant, (⟨w.name, .notified, instant⟩ : Ended) =
            w.verdict (count (steps ++ [s])) instant := by
          intro instant
          rw [Waiter.verdict, if_pos hgoal]
        by_cases hcloses : s.Closes (count (steps ++ [s])) w.key
        -- The step closes the channel when it begins, so the wait does not reach a later instant.
        · have hinstant : m.instant = elapsed steps := by
            refine Nat.le_antisymm (Nat.le_of_not_lt fun hlater => ?_) hfirst
            have hstays := hm.stays ⟨steps.length, elapsed steps⟩
              (isSettled_concat.2 (.inr ⟨rfl, Nat.le_refl _, elapsed_le_concat steps s⟩))
              (start_le_of_mem_begun hw) (.inr ⟨heq.symm, hlater⟩)
            exact hstays.1 ⟨(holds_concat_of_eq rfl).2 hgoal,
              (checks_concat_of_eq rfl).2 (.inr (.inl hcloses))⟩
          exact .inl ⟨⟨hcloses, hgoal⟩, hinstant ▸ hverdict _⟩
        · have hinstant : m.instant = w.deadline := by
            rcases (checks_concat_of_eq heq).1 hchecks with hstart | hnow | hge
            · exact absurd (closes_of_start hw hstart hgoal) hcloses
            · exact absurd hnow hcloses
            · exact Nat.le_antisymm hdue hge
          exact .inr ⟨fun h => hcloses h.1, hinstant ▸ hlast, hinstant ▸ hverdict _⟩
  | @timedOut m hm hdue hgoal =>
      rcases isSettled_concat.1 hm.settled with ⟨hlt, -⟩ | ⟨heq, hfirst, hlast⟩
      · exact .inl (.timedOut ((reaches_concat_of_lt hlt).1 hm) hdue
          (mt (holds_concat_of_lt hlt).2 hgoal))
      · rw [holds_concat_of_eq heq] at hgoal
        refine .inr ⟨hm.waiting heq, .inr ⟨fun h => hgoal h.2, hdue ▸ hlast, ?_⟩⟩
        rw [Waiter.verdict, if_neg hgoal]

omit hw in
/-- A wait that has ended is no longer under way. -/
theorem Ends.not_waiting (h : Ends steps i w e) : ¬Waiting steps i w := by
  intro hwaiting
  cases h with
  | notified hm hgoal hchecks hdue =>
      exact (hwaiting _ hm.settled hm.start_le).1 ⟨hgoal, hchecks⟩
  | timedOut hm hdue hgoal => exact Nat.ne_of_lt (hwaiting _ hm.settled hm.start_le).2 hdue

end Waits

/-- Before a wait starts, nothing ends it. -/
theorem waiting_of_length_le (hge : steps.length ≤ i) : Waiting steps i w :=
  fun _ hm hi => absurd hm.1 (Nat.not_lt.2 (Nat.le_trans hge hi))

/-- Every wait is under way or has ended. -/
theorem waiting_or_ends (hw : (i, w) ∈ begun steps) :
    Waiting steps i w ∨ ∃ e, Ends steps i w e := by
  induction steps using List.reverseRecOn with
  | nil => simp [begun] at hw
  | append_singleton steps s ih =>
      have hbefore : Waiting steps i w ∨ ∃ e, Ends steps i w e := by
        have hmem := hw
        rw [begun_concat] at hmem
        rcases List.mem_append.1 hmem with hold | hnew
        · exact ih hold
        · exact .inl (waiting_of_length_le (Nat.le_of_eq (Step.eq_of_mem_begins hnew).symm))
      rcases hbefore with hwaiting | ⟨e, hends⟩
      · by_cases hstops : ∃ e, Stops steps s w e
        · obtain ⟨e, hstops⟩ := hstops
          exact .inr ⟨e, hwaiting.ends hw hstops⟩
        · exact .inl ((waiting_concat hw).2 ⟨hwaiting, hstops⟩)
      · exact .inr ⟨e, hends.concat⟩

/-! ### What a run does -/

/-- What waiters have come to after steps: the waits under way and those that have ended. -/
structure Tracks (steps : List Step) (r : Run Waiters Nat) : Prop where
  resting : Resting r
  now_eq : r.now = elapsed steps
  counter_eq : r.state.counter = count steps
  spawned_eq : r.state.spawned = (begun steps).length
  waiting_iff : ∀ {n : Nat} {x : Waiter}, r.state.waiting[n]? = some x ↔
    ∃ i, (begun steps)[n]? = some (i, x) ∧ Waiting steps i x
  ended : ∃ ends : List (Nat × Ended), (ends.map Prod.fst).Nodup ∧
    r.state.ended = ends.map Prod.snd ∧
    ∀ {n e}, (n, e) ∈ ends ↔ ∃ i x, (begun steps)[n]? = some (i, x) ∧ Ends steps i x e

theorem tracks_start : Tracks [] start where
  resting := resting_start
  now_eq := rfl
  counter_eq := rfl
  spawned_eq := rfl
  waiting_iff := by simp [start, begun]
  ended := ⟨[], by simp, rfl, by simp [begun]⟩

/-- A step has happened to waiters that have not settled since: it has set the counter and started a
wait, and the waits before are as they were. -/
structure Step.Happens (s : Step) (i now : Nat) (w w' : Waiters) : Prop where
  counter_eq : w'.counter = s.count w.counter
  spawned_eq : w'.spawned = w.spawned + (s.begins i now).length
  ended_eq : w'.ended = w.ended
  waiting_iff : ∀ {n : Nat} {x : Waiter}, w'.waiting[n]? = some x ↔
    w.waiting[n]? = some x ∨ n = w.spawned ∧ s.begins i now = [(i, x)]

section Tracking

variable {r r' : Run Waiters Nat} {gone : List (Nat × Ended)} {w : Waiters} {c : Clock Nat}
variable {P : Waiter → Ended → Prop}

/-- Once a step has happened, the waits under way are those before and the one that it starts. -/
theorem Tracks.begun_iff (h : Tracks steps r)
    (hs : s.Happens steps.length r.now r.state w) : w.waiting[n]? = some x ↔
      ∃ i, (begun (steps ++ [s]))[n]? = some (i, x) ∧ Waiting steps i x := by
  rw [hs.waiting_iff, h.waiting_iff, h.spawned_eq, h.now_eq]
  constructor
  · rintro (⟨i, hbegun, hgoes⟩ | ⟨hn, hnew⟩)
    · exact ⟨i, getElem?_begun_concat.2 (.inl hbegun), hgoes⟩
    · exact ⟨steps.length, getElem?_begun_concat.2 (.inr ⟨hn, hnew⟩),
        waiting_of_length_le (Nat.le_refl _)⟩
  · rintro ⟨i, hbegun, hgoes⟩
    rcases getElem?_begun_concat.1 hbegun with hold | ⟨hn, hnew⟩
    · exact .inl ⟨i, hold, hgoes⟩
    · exact .inr ⟨hn, Step.eq_of_begins hnew ▸ hnew⟩

/-- The wait that a step starts has not ended before. -/
theorem exists_ends_iff : (∃ i x, (begun (steps ++ [s]))[n]? = some (i, x) ∧ Ends steps i x e) ↔
    ∃ i x, (begun steps)[n]? = some (i, x) ∧ Ends steps i x e := by
  constructor
  · rintro ⟨i, x, hbegun, hends⟩
    rcases getElem?_begun_concat.1 hbegun with hbegun | ⟨-, hnew⟩
    · exact ⟨i, x, hbegun, hends⟩
    · have hge : steps.length ≤ i := Nat.le_of_eq (Step.eq_of_begins hnew).symm
      exact absurd (waiting_of_length_le hge) hends.not_waiting
  · rintro ⟨i, x, hbegun, hends⟩
    exact ⟨i, x, getElem?_begun_concat.2 (.inl hbegun), hends⟩

/-- A step that stops just the waits that it should keeps track. -/
theorem Tracks.next (h : Tracks steps r) (hs : s.Happens steps.length r.now r.state w)
    (hresting : Resting r') (hnow : r'.now = elapsed (steps ++ [s]))
    (hgone : Finishes P w gone r'.state)
    (hstops : ∀ {n e}, (n, e) ∈ gone ↔ ∃ x, w.waiting[n]? = some x ∧ Stops steps s x e) :
    Tracks (steps ++ [s]) r' where
  resting := hresting
  now_eq := hnow
  counter_eq := by rw [hgone.counter_eq, hs.counter_eq, h.counter_eq, count_concat]
  spawned_eq := by
    rw [hgone.spawned_eq, hs.spawned_eq, begun_concat, List.length_append, h.spawned_eq, h.now_eq]
  waiting_iff := by
    intro n x
    have hleft : w.waiting[n]? = some x →
        (n ∉ gone.map Prod.fst ↔ ¬∃ e, Stops steps s x e) := by
      intro hx
      refine not_congr ⟨fun hn => ?_, fun ⟨e, he⟩ => ?_⟩
      · obtain ⟨⟨n, e⟩, hmem, rfl⟩ := List.mem_map.1 hn
        obtain ⟨y, hy, he⟩ := hstops.1 hmem
        obtain rfl : x = y := Option.some_inj.1 (hx.symm.trans hy)
        exact ⟨e, he⟩
      · exact List.mem_map.2 ⟨(n, e), hstops.2 ⟨x, hx, he⟩, rfl⟩
    rw [hgone.waiting_iff, and_congr_right hleft, h.begun_iff hs]
    constructor
    · rintro ⟨⟨i, hbegun, hgoes⟩, hnot⟩
      exact ⟨i, hbegun, (waiting_concat (List.mem_of_getElem? hbegun)).2 ⟨hgoes, hnot⟩⟩
    · rintro ⟨i, hbegun, hgoes⟩
      obtain ⟨hgoes, hnot⟩ := (waiting_concat (List.mem_of_getElem? hbegun)).1 hgoes
      exact ⟨⟨i, hbegun, hgoes⟩, hnot⟩
  ended := by
    obtain ⟨ends, hnodup, heq, hiff⟩ := h.ended
    have hnew : ∀ {n e}, (n, e) ∈ gone ↔ ∃ i x, (begun (steps ++ [s]))[n]? = some (i, x) ∧
        Waiting steps i x ∧ Stops steps s x e := by
      intro n e
      rw [hstops]
      constructor
      · rintro ⟨x, hx, he⟩
        obtain ⟨i, hbegun, hgoes⟩ := (h.begun_iff hs).1 hx
        exact ⟨i, x, hbegun, hgoes, he⟩
      · rintro ⟨i, x, hbegun, hgoes, he⟩
        exact ⟨x, (h.begun_iff hs).2 ⟨i, hbegun, hgoes⟩, he⟩
    refine ⟨ends ++ gone, ?_, ?_, fun {n e} => ?_⟩
    · rw [List.map_append, List.nodup_append]
      refine ⟨hnodup, hgone.nodup, fun n hn m hm => ?_⟩
      rintro rfl
      obtain ⟨⟨n, e⟩, hmem, rfl⟩ := List.mem_map.1 hn
      obtain ⟨⟨n', e'⟩, hmem', heq⟩ := List.mem_map.1 hm
      obtain rfl : n' = n := heq
      obtain ⟨i, x, hbegun, hends⟩ := exists_ends_iff.2 (hiff.1 hmem)
      obtain ⟨i', x', hbegun', hgoes, -⟩ := hnew.1 hmem'
      obtain ⟨rfl, rfl⟩ : i = i' ∧ x = x' := by simpa using hbegun.symm.trans hbegun'
      exact hends.not_waiting hgoes
    · rw [hgone.ended_eq, hs.ended_eq, heq, List.map_append]
    · rw [List.mem_append, hiff, ← exists_ends_iff, hnew]
      constructor
      · rintro (⟨i, x, hbegun, hends⟩ | ⟨i, x, hbegun, hgoes, he⟩)
        · exact ⟨i, x, hbegun, hends.concat⟩
        · exact ⟨i, x, hbegun, hgoes.ends (List.mem_of_getElem? hbegun) he⟩
      · rintro ⟨i, x, hbegun, hends⟩
        rcases hends.of_concat (List.mem_of_getElem? hbegun) with hends | hends
        · exact .inl ⟨i, x, hbegun, hends⟩
        · exact .inr ⟨i, x, hbegun, hends⟩

/-- In a step that takes no time, waits are decided as the channels are that it closes. -/
theorem stops_iff_decides (hspan : s.span = 0) (hle : elapsed steps ≤ x.deadline) :
    Stops steps s x e ↔ Decides (fun key => s.Closes (count (steps ++ [s])) key)
      (count (steps ++ [s])) (elapsed steps) x e := by
  have hlast : elapsed (steps ++ [s]) = elapsed steps := by
    rw [elapsed_concat, hspan, Nat.add_zero]
  rw [Stops, hlast]
  constructor
  · rintro (⟨htells, rfl⟩ | ⟨-, hdue, rfl⟩)
    · exact ⟨.inr htells, rfl⟩
    · exact ⟨.inl hdue, by rw [Nat.le_antisymm hdue hle]⟩
  · rintro ⟨hstop, rfl⟩
    by_cases htells : Tells steps s x
    · exact .inl ⟨htells, rfl⟩
    · have hdue := hstop.resolve_right htells
      exact .inr ⟨htells, hdue, by rw [Nat.le_antisymm hdue hle]⟩

/-- A step that takes no time keeps track, if it closes channels as it should. -/
theorem Tracks.settle (h : Tracks steps r) (hs : s.Happens steps.length r.now r.state w)
    (hspan : s.span = 0) (hnow : c.now = r.now)
    (horderly : Orderly (fun key => s.Closes (s.count (count steps)) key) c w) :
    Tracks (steps ++ [s]) (Run.settle program ⟨c, w⟩) := by
  obtain ⟨hresting, gone, hgone, hiff⟩ := Orderly.settle (r := ⟨c, w⟩) horderly
  have hcount : w.counter = count (steps ++ [s]) := by
    rw [hs.counter_eq, h.counter_eq, count_concat]
  have htime : Run.now ⟨c, w⟩ = elapsed steps := hnow.trans h.now_eq
  refine h.next hs hresting ?_ hgone fun {n e} => ?_
  · rw [Run.now_settle, htime, elapsed_concat, hspan, Nat.add_zero]
  · rw [hiff, htime, hcount, ← count_concat]
    refine exists_congr fun x => and_congr_right fun hx => (stops_iff_decides hspan ?_).symm
    obtain ⟨i, hbegun, hgoes⟩ := (h.begun_iff hs).1 hx
    exact hgoes.le (List.mem_of_getElem? hbegun)

/-- Time that passes keeps track. -/
theorem Tracks.advance (h : Tracks steps r) (span : Nat) :
    Tracks (steps ++ [.advance span]) (advance r span) := by
  obtain ⟨hresting, gone, hgone⟩ := h.resting.advance span
  have hlast : (Waiters.advance r span).now = r.now + Clock.measured span := Run.now_advance _ _ _
  have hleft : ∀ {e : Ended} {n : Nat} {x : Waiter},
      (Waiters.advance r span).state.waiting[n]? = some x →
        ¬Lapses r.state.counter (r.now + Clock.measured span) x e := by
    intro e n x hx hlapses
    exact Nat.not_le.2 (hlast ▸ hresting.now_lt hx) hlapses.1
  have hs : (Step.advance span).Happens steps.length r.now r.state r.state :=
    ⟨rfl, rfl, rfl, by simp [Step.begins]⟩
  refine h.next hs hresting ?_ hgone fun {n e} => ?_
  · rw [hlast, elapsed_concat, h.now_eq]
    rfl
  · rw [hgone.mem_iff (fun hP hP' => hP.2.trans hP'.2.symm) hleft, h.counter_eq, h.now_eq]
    simp [Lapses, Stops, Tells, Step.Closes, count_concat, elapsed_concat, Step.count, Step.span]

/-- Every step keeps track. -/
theorem Tracks.step (h : Tracks steps r) (s : Step) : Tracks (steps ++ [s]) (perform r s) := by
  cases s with
  | wait name key span goal =>
      have horderly := h.resting.wait ⟨name, key, r.now + span, goal⟩
      rw [h.counter_eq] at horderly
      refine h.settle ⟨rfl, rfl, rfl, fun {n x} => ?_⟩ rfl (Clock.now_wake _ _) horderly
      dsimp only
      rw [Std.ExtTreeMap.getElem?_insert]
      by_cases hn : r.state.spawned = n
      · subst hn
        simp [h.resting.fresh, Step.begins]
      · simp [hn, Ne.symm hn]
  | subscribe key =>
      refine h.settle ⟨rfl, rfl, rfl, by simp [Step.begins]⟩ rfl rfl
        (h.resting.untouched (fun {n key'} => ?_) rfl rfl)
      simp [Listens, mem_subscribers_subscribe]
  | set count =>
      exact h.settle ⟨rfl, rfl, rfl, by simp [Step.begins]⟩ rfl rfl
        (h.resting.untouched Iff.rfl rfl rfl)
  | notify key =>
      exact h.settle ⟨rfl, rfl, rfl, by simp [Step.begins, reach]⟩ rfl (Clock.now_grantAll _ _)
        (h.resting.notify key _)
  | advance span => exact h.advance span

end Tracking

theorem tracks (steps : List Step) : Tracks steps (after steps) := by
  induction steps using List.reverseRecOn with
  | nil => exact tracks_start
  | append_singleton steps s ih =>
      rw [after_concat]
      exact ih.step s

/-- A wait that is under way has not reached its deadline. -/
theorem Waiting.elapsed_lt (h : Waiting steps i w) (hw : (i, w) ∈ begun steps) :
    elapsed steps < w.deadline := by
  obtain ⟨name, key, span, goal, hget, -⟩ := of_mem_begun hw
  have hlt := (List.getElem?_eq_some_iff.1 hget).1
  exact (h _ (isSettled_last (Nat.zero_lt_of_lt hlt)) (Nat.le_pred_of_lt hlt)).2

/-- Bounded waits are exact. After any steps, the waits that have ended are those that should have,
each once, as it should and when it should. The others are those that nothing has ended so far, and
no wait stays past its deadline. -/
theorem bounded_waits (steps : List Step) :
    (∃ ends : List (Nat × Ended), (ends.map Prod.fst).Nodup ∧
      (after steps).state.ended = ends.map Prod.snd ∧
      ∀ n e, (n, e) ∈ ends ↔ ∃ i w, (begun steps)[n]? = some (i, w) ∧ Ends steps i w e) ∧
    (∀ (n : Nat) (w : Waiter), (after steps).state.waiting[n]? = some w ↔
      ∃ i, (begun steps)[n]? = some (i, w) ∧ Waiting steps i w) ∧
    ∀ i w, (i, w) ∈ begun steps → w.deadline ≤ elapsed steps → ∃ e, Ends steps i w e := by
  obtain ⟨ends, hnodup, hended, hiff⟩ := (tracks steps).ended
  refine ⟨⟨ends, hnodup, hended, fun n e => hiff⟩, fun n w => (tracks steps).waiting_iff, ?_⟩
  intro i w hw hdue
  exact (waiting_or_ends hw).resolve_left fun hwaiting =>
    Nat.not_le.2 (hwaiting.elapsed_lt hw) hdue

/-- A wait for a count that is reached, but that nobody tells, ends at its deadline. -/
theorem bounded_waits_untold :
    (0, (⟨1, 7, 5, 1⟩ : Waiter)) ∈ begun [.wait 1 7 5 1, .set 1, .advance 6] ∧
      5 ≤ elapsed [.wait 1 7 5 1, .set 1, .advance 6] ∧
      ∃ e, Ends [.wait 1 7 5 1, .set 1, .advance 6] 0 ⟨1, 7, 5, 1⟩ e :=
  ⟨by decide, by decide, (bounded_waits _).2.2 _ _ (by decide) (by decide)⟩

/-- A waiter that finds its goal when it starts wakes the one that has waited before. -/
example : (after [.wait 1 7 5 1, .set 1, .wait 2 7 5 1]).state.ended =
    [⟨2, .notified, 0⟩, ⟨1, .notified, 0⟩] := by decide

end WitnessReplication.Registry.Waiters
