/-!
# A clock for tasks

Tasks run one at a time on a clock that moves only when asked. A task that is woken joins the end
of a queue, and a task may set an alarm that wakes it later. `Run.settle` lets the tasks in the
queue run, at one instant, until none is left. `Run.advance` moves the clock from alarm to alarm
until a span has passed, and then settles; `Run.pause` leaves those in the queue that are woken when
the span ends. A span that is longer than the clock's horizon ends there.

Tasks run in turns of a fixed number of looks. Whoever waits for something looks at the state when
no task is left in the queue and between turns: `Run.settleUnless`.

## Implementation notes

What tasks do is a `Program`: one look of a task changes the shared state and asks the clock for
wake-ups and alarms. A program comes with a bound on the looks that settling takes, which makes
settling total whatever the program does.
-/

namespace WitnessReplication

/-- A request to the clock: to wake a task now or at an instant, or to put off its alarm. -/
inductive Clock.Request (τ : Type) where
  | wake (task : τ)
  | alarm (task : τ) (instant : Nat)
  | calm (task : τ)
  deriving DecidableEq, Repr

/-- An instant in milliseconds, the tasks that are to run at it, and the alarms that are set, by
instant and, for one instant, in the order in which they were set. -/
structure Clock (τ : Type) where
  now : Nat := 0
  ready : List τ := []
  alarms : List (Nat × τ) := []

namespace Clock

variable {τ : Type} [DecidableEq τ]

/-- The longest span that the clock measures in one go: thirty years of 365 days. -/
def horizon : Nat := 30 * 365 * 24 * 60 * 60 * 1000

/-- What the clock measures of a span. -/
def measured (span : Nat) : Nat := Nat.min span horizon

theorem measured_le (span : Nat) : measured span ≤ span := Nat.min_le_left _ _

/-- Queues a task, unless it is in the queue. -/
def wake (c : Clock τ) (task : τ) : Clock τ :=
  if task ∈ c.ready then c else { c with ready := c.ready ++ [task] }

/-- Puts off the alarm of a task. -/
def calm (c : Clock τ) (task : τ) : Clock τ :=
  { c with alarms := c.alarms.filter fun alarm => alarm.2 ≠ task }

/-- Sets the one alarm of a task. An alarm that is due wakes it at once. -/
def setAlarm (c : Clock τ) (task : τ) (instant : Nat) : Clock τ :=
  let c := c.calm task
  if instant ≤ c.now then c.wake task
  else
    { c with
      alarms :=
        c.alarms.takeWhile (fun alarm => decide (alarm.1 ≤ instant)) ++
          (instant, task) :: c.alarms.dropWhile fun alarm => decide (alarm.1 ≤ instant) }

/-- Grants a request. -/
def grant (c : Clock τ) : Request τ → Clock τ
  | .wake task => c.wake task
  | .alarm task instant => c.setAlarm task instant
  | .calm task => c.calm task

/-- Grants requests in order. -/
def grantAll (c : Clock τ) (requests : List (Request τ)) : Clock τ :=
  requests.foldl grant c

/-- The instant of the next alarm. -/
def nextAlarm? (c : Clock τ) : Option Nat :=
  c.alarms.head?.map Prod.fst

/-- Moves to an instant; the alarms that are due by then wake their tasks in order. -/
def moveTo (c : Clock τ) (instant : Nat) : Clock τ :=
  let due := c.alarms.takeWhile fun alarm => decide (alarm.1 ≤ instant)
  let c := { c with
    now := instant
    alarms := c.alarms.dropWhile fun alarm => decide (alarm.1 ≤ instant) }
  due.foldl (fun c alarm => c.wake alarm.2) c

@[simp] theorem now_wake (c : Clock τ) (task : τ) : (c.wake task).now = c.now := by
  unfold wake; split <;> rfl

@[simp] theorem now_calm (c : Clock τ) (task : τ) : (c.calm task).now = c.now := rfl

@[simp] theorem now_setAlarm (c : Clock τ) (task : τ) (instant : Nat) :
    (c.setAlarm task instant).now = c.now := by
  unfold setAlarm; dsimp only; split <;> simp

@[simp] theorem now_grant (c : Clock τ) (request : Request τ) : (c.grant request).now = c.now := by
  cases request <;> simp [grant]

@[simp] theorem now_grantAll (c : Clock τ) (requests : List (Request τ)) :
    (c.grantAll requests).now = c.now := by
  induction requests generalizing c with
  | nil => rfl
  | cons request requests ih =>
    change ((c.grant request).grantAll requests).now = c.now
    rw [ih, now_grant]

@[simp] theorem now_moveTo (c : Clock τ) (instant : Nat) : (c.moveTo instant).now = instant := by
  have h : ∀ (due : List (Nat × τ)) (c : Clock τ),
      (due.foldl (fun c alarm => c.wake alarm.2) c).now = c.now := by
    intro due
    induction due with
    | nil => intro c; rfl
    | cons alarm due ih => intro c; rw [List.foldl_cons, ih, now_wake]
  simp only [moveTo, h]

end Clock

/-- What tasks do: one look of a task at an instant, and a bound on the looks it takes to settle,
given how many tasks are in the queue. -/
structure Program (σ τ : Type) where
  look : Nat → τ → σ → σ × List (Clock.Request τ)
  effort : Nat → σ → Nat

/-- A state shared by tasks, with their clock. -/
structure Run (σ τ : Type) where
  clock : Clock τ
  state : σ

namespace Run

variable {σ τ : Type} [DecidableEq τ]

/-- The present instant. -/
def now (r : Run σ τ) : Nat := r.clock.now

/-- Changes the state and grants requests. -/
def put (r : Run σ τ) (change : σ × List (Clock.Request τ)) : Run σ τ :=
  ⟨r.clock.grantAll change.2, change.1⟩

/-- Lets the tasks in the queue run, for at most `bound` looks. -/
def settleWithin (p : Program σ τ) : Nat → Run σ τ → Run σ τ
  | 0, r => r
  | bound + 1, r =>
    match r.clock.ready with
    | [] => r
    | task :: ready =>
      settleWithin p bound
        (Run.put ⟨{ r.clock with ready := ready }, r.state⟩ (p.look r.clock.now task r.state))

/-- Lets the tasks in the queue run until none is left. -/
def settle (p : Program σ τ) (r : Run σ τ) : Run σ τ :=
  settleWithin p (p.effort r.clock.ready.length r.state) r

/-- The looks in one turn. -/
def turn : Nat := 61

/-- Lets the tasks in the queue run, for at most `turns` turns, unless the state is as awaited at
the end of one. -/
def settleTurns (p : Program σ τ) (awaited : σ → Bool) : Nat → Run σ τ → Run σ τ
  | 0, r => r
  | turns + 1, r =>
    let r := settleWithin p turn r
    if r.clock.ready.isEmpty || awaited r.state then r else settleTurns p awaited turns r

/-- Lets the tasks in the queue run until none is left, unless the state is as awaited at the end of
a turn. -/
def settleUnless (p : Program σ τ) (awaited : σ → Bool) (r : Run σ τ) : Run σ τ :=
  settleTurns p awaited (p.effort r.clock.ready.length r.state) r

/-- Moves the clock to an instant and settles. -/
def moveTo (p : Program σ τ) (r : Run σ τ) (instant : Nat) : Run σ τ :=
  settle p ⟨r.clock.moveTo instant, r.state⟩

theorem now_settleWithin (p : Program σ τ) (bound : Nat) (r : Run σ τ) :
    (settleWithin p bound r).now = r.now := by
  induction bound generalizing r with
  | zero => rfl
  | succ bound ih =>
    unfold settleWithin
    split
    · rfl
    · rw [ih]; simp [put, now]

@[simp] theorem now_settle (p : Program σ τ) (r : Run σ τ) : (settle p r).now = r.now :=
  now_settleWithin p _ r

@[simp] theorem now_runMoveTo (p : Program σ τ) (r : Run σ τ) (instant : Nat) :
    (moveTo p r instant).now = instant := by
  rw [moveTo, now_settle]
  exact Clock.now_moveTo r.clock instant

/-- Moves the clock from alarm to alarm up to an instant, settling at each before it. The tasks that
are woken at the instant itself stay in the queue. -/
def approach (p : Program σ τ) (instant : Nat) (r : Run σ τ) : Run σ τ :=
  match r.clock.nextAlarm? with
  | none => ⟨r.clock.moveTo instant, r.state⟩
  | some next =>
    if r.now < next ∧ next < instant then approach p instant (r.moveTo p next)
    else ⟨r.clock.moveTo instant, r.state⟩
termination_by instant - r.now
decreasing_by
  rw [now_runMoveTo]
  omega

@[simp] theorem now_approach (p : Program σ τ) (instant : Nat) (r : Run σ τ) :
    (approach p instant r).now = instant := by
  fun_induction approach p instant r with
  | case1 r => exact Clock.now_moveTo r.clock instant
  | case2 r next _ _ ih => exact ih
  | case3 r => exact Clock.now_moveTo r.clock instant

/-- Lets a span pass for whoever waits for its end and goes on before the tasks that are woken
then. A wait of no length lets nothing run. -/
def pause (p : Program σ τ) (span : Nat) (r : Run σ τ) : Run σ τ :=
  if span = 0 then r else approach p (r.now + Clock.measured span) (r.settle p)

/-- Lets a span pass and settles. -/
def advance (p : Program σ τ) (span : Nat) (r : Run σ τ) : Run σ τ :=
  (approach p (r.now + Clock.measured span) (r.settle p)).settle p

/-- Time passes by what the clock measures of the span. -/
theorem now_advance (p : Program σ τ) (span : Nat) (r : Run σ τ) :
    (advance p span r).now = r.now + Clock.measured span := by
  rw [advance, now_settle, now_approach]

end Run

end WitnessReplication
