import WitnessReplication.Proofs.Registry.Settling

/-!
# Waiters at rest

Where no waiter is in the queue, each listens and has its alarm set. What happens to waiters at
rest, a wait that starts or a channel that is closed, leaves everything in order for them to settle.
When time passes, just those waits end whose deadline comes, each at its deadline
(`Resting.advance`).
-/

namespace WitnessReplication.Registry.Waiters

variable {r : Run Waiters Nat} {n name : Nat} {key count goal : Int} {x : Waiter} {e : Ended}

/-! ### What happens -/

theorem resting_start : Resting start where
  ready_eq := rfl
  orderly := {
    nodup := List.nodup_nil
    sorted := List.Pairwise.nil
    ahead := fun ha => by simp [start] at ha
    alarm := fun ha => by simp [start] at ha
    listening := fun hm => by simp [start, Listens] at hm
    spawned := fun hx => by simp [start] at hx
    served := fun hx => by simp [start] at hx
    due := fun hm => by simp [start] at hm
    entitled := fun hm => by simp [start] at hm
    closer := fun _ hkey => hkey.elim }

/-- At rest, a waiter listens until its alarm. -/
theorem Resting.served (h : Resting r) (hx : r.state.waiting[n]? = some x) :
    r.state.Listens n x.key ∧ (x.deadline, n) ∈ r.clock.alarms :=
  (h.orderly.served hx).resolve_left (by simp [h.ready_eq])

theorem Resting.now_lt (h : Resting r) (hx : r.state.waiting[n]? = some x) : r.now < x.deadline :=
  h.orderly.ahead (h.served hx).2

theorem Resting.fresh (h : Resting r) : r.state.waiting[r.state.spawned]? = none := by
  cases hx : r.state.waiting[r.state.spawned]? with
  | none => rfl
  | some x => exact absurd (h.orderly.spawned hx) (Nat.lt_irrefl _)

/-- A change that leaves the waits and the channels that they listen on as they are. -/
theorem Resting.untouched (h : Resting r) {w : Waiters}
    (hlistens : ∀ {n key}, w.Listens n key ↔ r.state.Listens n key)
    (hwaiting : w.waiting = r.state.waiting) (hspawned : w.spawned = r.state.spawned) :
    Orderly (fun _ => False) r.clock w where
  nodup := h.orderly.nodup
  sorted := h.orderly.sorted
  ahead := h.orderly.ahead
  alarm := by
    rw [hwaiting]
    exact h.orderly.alarm
  listening hm := by
    rw [hwaiting]
    exact h.orderly.listening (hlistens.1 hm)
  spawned := by
    rw [hwaiting, hspawned]
    exact h.orderly.spawned
  served hx := by
    rw [hwaiting] at hx
    exact (h.orderly.served hx).imp_right fun ⟨hm, halarm⟩ => ⟨hlistens.2 hm, halarm⟩
  due hm := by simp [h.ready_eq] at hm
  entitled hm := by simp [h.ready_eq] at hm
  closer _ hkey := hkey.elim

/-- A wait that starts is in the queue, and it closes the channel of its key if its goal holds. -/
theorem Resting.wait (h : Resting r) (x : Waiter) :
    Orderly (fun key => key = x.key ∧ x.goal ≤ r.state.counter)
      (r.clock.wake r.state.spawned)
      { r.state with
        waiting := r.state.waiting.insert r.state.spawned x
        spawned := r.state.spawned + 1 } := by
  have hready : (r.clock.wake r.state.spawned).ready = [r.state.spawned] := by
    simp [Clock.wake, h.ready_eq]
  have hold : ∀ {m y}, r.state.waiting[m]? = some y → m ≠ r.state.spawned := by
    rintro m y hy rfl
    rw [h.fresh] at hy
    cases hy
  have hwaiting : ∀ {m y}, (r.state.waiting.insert r.state.spawned x)[m]? = some y ↔
      r.state.waiting[m]? = some y ∨ m = r.state.spawned ∧ y = x := by
    intro m y
    rw [Std.ExtTreeMap.getElem?_insert]
    by_cases hm : r.state.spawned = m
    · subst hm
      simp [h.fresh, eq_comm]
    · simp [hm, Ne.symm hm]
  have hsilent : ∀ {m key}, r.state.Listens m key → m ≠ r.state.spawned := by
    intro m key hm
    obtain ⟨y, hy, -⟩ := h.orderly.listening hm
    exact hold hy
  constructor
  case nodup => simp [hready]
  case sorted =>
    unfold Clock.Sorted
    rw [Clock.alarms_wake]
    exact h.orderly.sorted
  case ahead =>
    intro a ha
    rw [Clock.alarms_wake] at ha
    rw [Clock.now_wake]
    exact h.orderly.ahead ha
  case alarm =>
    intro a ha
    rw [Clock.alarms_wake] at ha
    obtain ⟨y, hy, hdeadline⟩ := h.orderly.alarm ha
    exact ⟨y, hwaiting.2 (.inl hy), hdeadline⟩
  case listening =>
    intro m key hm
    obtain ⟨y, hy, hkey⟩ := h.orderly.listening hm
    exact ⟨y, hwaiting.2 (.inl hy), hkey⟩
  case spawned =>
    intro m y hy
    rcases hwaiting.1 hy with hy | ⟨rfl, -⟩
    · exact Nat.lt_succ_of_lt (h.orderly.spawned hy)
    · exact Nat.lt_succ_self _
  case served =>
    intro m y hy
    rw [hready, Clock.alarms_wake]
    rcases hwaiting.1 hy with hy | ⟨rfl, -⟩
    · exact .inr (h.served hy)
    · exact .inl List.mem_cons_self
  case due =>
    intro m y hm hy hlisten
    rw [hready, List.mem_singleton] at hm
    exact absurd hm (hsilent hlisten)
  case entitled =>
    intro m y hm hy hfresh hgoal
    rw [hready, List.mem_singleton] at hm
    rcases hwaiting.1 hy with hy | ⟨-, rfl⟩
    · exact absurd hm (hold hy)
    · exact ⟨rfl, hgoal⟩
  case closer =>
    rintro m y hy ⟨hkey, hgoal⟩ -
    rw [hready]
    exact .inr ⟨r.state.spawned, List.mem_cons_self, x, hwaiting.2 (.inr ⟨rfl, rfl⟩), hkey.symm,
      fun hm => hsilent hm rfl, hgoal⟩

/-- Whoever listens on a channel that is closed is in the queue. -/
theorem Resting.notify (h : Resting r) (key : Int) (closed : List Bool) :
    Orderly (fun k => k = key)
      (r.clock.grantAll (r.state.reach (r.state.registry.subscribers key)).2)
      { r.state with registry := (r.state.registry.close key).1, closed } :=
  (h.orderly.close key closed).congr fun _ => or_iff_left id

/-! ### Time that passes -/

/-- The end of a wait whose deadline comes: it ends there, and nobody closes a channel. -/
def Lapses (counter : Int) (limit : Nat) (x : Waiter) (e : Ended) : Prop :=
  x.deadline ≤ limit ∧ e = x.verdict counter x.deadline

/-- When the clock moves, those are in the queue whose deadline has come. -/
theorem Resting.orderly_moveTo (h : Resting r) (instant : Nat) :
    Orderly (fun _ => False) (r.clock.moveTo instant) r.state := by
  have hsorted := h.orderly.sorted
  constructor
  case nodup => exact Clock.nodup_ready_moveTo h.orderly.nodup instant
  case sorted => exact hsorted.moveTo instant
  case ahead =>
    intro a ha
    rw [Clock.now_moveTo]
    exact ((Clock.mem_alarms_moveTo hsorted).1 ha).2
  case alarm => exact fun ha => h.orderly.alarm ((Clock.mem_alarms_moveTo hsorted).1 ha).1
  case listening => exact h.orderly.listening
  case spawned => exact h.orderly.spawned
  case served =>
    intro m y hy
    obtain ⟨hm, halarm⟩ := h.served hy
    rw [Clock.mem_ready_moveTo_iff hsorted, Clock.mem_alarms_moveTo hsorted]
    rcases Nat.lt_or_ge instant y.deadline with hlt | hle
    · exact .inr ⟨hm, halarm, hlt⟩
    · exact .inl (.inr ⟨y.deadline, hle, halarm⟩)
  case due =>
    intro m y hm hy _
    rw [Clock.mem_ready_moveTo_iff hsorted, h.ready_eq] at hm
    obtain ⟨due, hdue, halarm⟩ := hm.resolve_left List.not_mem_nil
    obtain ⟨y', hy', rfl⟩ := h.orderly.alarm halarm
    obtain rfl : y = y' := Option.some_inj.1 (hy.symm.trans hy')
    rwa [Clock.now_moveTo]
  case entitled => exact fun _ hy hfresh _ => hfresh (h.served hy).1
  case closer => exact fun _ hkey => hkey.elim

/-- Up to the next alarm nothing happens, and there those waits end whose deadline it is. -/
theorem Resting.moveTo (h : Resting r) {instant : Nat}
    (hnext : ∀ a ∈ r.clock.alarms, instant ≤ a.1) :
    Resting (r.moveTo program instant) ∧
      ∃ gone, Finishes (Lapses r.state.counter instant) r.state gone
        (r.moveTo program instant).state := by
  obtain ⟨hresting, gone, hgone, -⟩ :=
    Orderly.settle (r := ⟨r.clock.moveTo instant, r.state⟩) (h.orderly_moveTo instant)
  refine ⟨hresting, gone, { hgone with ends := fun hmem => ?_ }⟩
  obtain ⟨x, hx, hstop, rfl⟩ := hgone.ends hmem
  have hnow : Run.now ⟨r.clock.moveTo instant, r.state⟩ = instant := Clock.now_moveTo _ _
  rw [hnow] at hstop ⊢
  have hdue : x.deadline ≤ instant := hstop.resolve_right fun hnever => hnever.1
  have heq : x.deadline = instant := Nat.le_antisymm hdue (hnext _ (h.served hx).2)
  exact ⟨x, hx, hdue, by rw [heq]⟩

/-- While time passes, just those waits end whose deadline comes, each at its deadline. -/
theorem Resting.approach (h : Resting r) (instant : Nat) :
    Resting ((r.approach program instant).settle program) ∧
      ∃ gone, Finishes (Lapses r.state.counter instant) r.state gone
        ((r.approach program instant).settle program).state := by
  fun_induction Run.approach program instant r with
  | case1 r hnone => exact h.moveTo (by simp [Clock.nextAlarm_eq_none hnone])
  | case2 r next hnext hbetween ih =>
      obtain ⟨hresting, gone, hgone⟩ := h.moveTo
        (fun a ha => h.orderly.sorted.nextAlarm_le hnext ha)
      obtain ⟨hresting', gone', hgone'⟩ := ih hresting
      rw [hgone.counter_eq] at hgone'
      refine ⟨hresting', gone ++ gone', Finishes.trans (hgone.mono fun hlapses => ?_) hgone'⟩
      exact ⟨Nat.le_trans hlapses.1 (Nat.le_of_lt hbetween.2), hlapses.2⟩
  | case3 r next hnext hbetween =>
      refine h.moveTo fun a ha => Nat.le_trans ?_ (h.orderly.sorted.nextAlarm_le hnext ha)
      have hahead : r.now < next := by
        obtain ⟨a, halarms, rfl⟩ : ∃ a ∈ r.clock.alarms, a.1 = next := by
          obtain ⟨a, ha, heq⟩ := Option.map_eq_some_iff.1 hnext
          exact ⟨a, List.mem_of_mem_head? ha, heq⟩
        exact h.orderly.ahead halarms
      exact Nat.le_of_not_lt fun hlt => hbetween ⟨hahead, hlt⟩

theorem Resting.settle_eq (h : Resting r) : r.settle program = r :=
  Run.settleWithin_of_ready program h.ready_eq _

theorem Resting.advance (h : Resting r) (span : Nat) :
    Resting (advance r span) ∧
      ∃ gone, Finishes (Lapses r.state.counter (r.now + Clock.measured span)) r.state gone
        (advance r span).state := by
  unfold Waiters.advance Run.advance
  rw [h.settle_eq]
  exact h.approach _

end WitnessReplication.Registry.Waiters
