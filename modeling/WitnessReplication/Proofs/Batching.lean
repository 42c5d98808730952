import Mathlib.Data.List.Induction
import Mathlib.Order.Bounds.Basic
import WitnessReplication.Batcher.Flushing
import WitnessReplication.Proofs.Clock
import WitnessReplication.Proofs.Tables

/-!
# Batches

A batcher sends what is queued, each message once and in the order in which it was queued, accepts
and acknowledgements each in their own order. It sends no empty batch, and its statistics describe
the batches that it has sent. Once its delay has passed after its task has run, with nothing queued
since then, it has sent everything (`Batcher.Flushing.sent_in_order`).

Between the looks of its task a batcher is idle, or it holds a batch back and has set its alarm for
the end of the delay (`Rests`). A message that is queued wakes the task of an idle batcher only.
-/

namespace WitnessReplication

namespace Batcher

/-! ### Statistics -/

/-- Statistics describe the batches that have been sent. -/
structure Stats.Describes (s : Stats) (sent : List Batch) : Prop where
  batches_eq : s.batches = sent.length
  accepts_eq : s.accepts = (sent.map fun b => b.accepts.length).sum
  acks_eq : s.acks = (sent.map fun b => b.acks.length).sum
  total_eq : s.total = (sent.map Batch.size).sum
  min_eq : sent = [] ∧ s.min = 0 ∨ IsLeast {n | ∃ b ∈ sent, b.size = n} s.min
  max_eq : sent = [] ∧ s.max = 0 ∨ IsGreatest {n | ∃ b ∈ sent, b.size = n} s.max

theorem Stats.describes_nil : Stats.Describes {} [] :=
  ⟨rfl, rfl, rfl, rfl, .inl ⟨rfl, rfl⟩, .inl ⟨rfl, rfl⟩⟩

/-- Statistics that count one more batch describe it too. -/
theorem Stats.Describes.record {s : Stats} {sent : List Batch} (h : s.Describes sent) (b : Batch) :
    (s.record b).Describes (sent ++ [b]) where
  batches_eq := by simp [Stats.record, h.batches_eq]
  accepts_eq := by simp [Stats.record, h.accepts_eq]
  acks_eq := by simp [Stats.record, h.acks_eq]
  total_eq := by simp [Stats.record, h.total_eq]
  min_eq := by
    right
    rcases h.min_eq with ⟨rfl, -⟩ | ⟨⟨first, hfirst, hmin⟩, hleast⟩
    · have hzero : s.batches = 0 := h.batches_eq
      simp [Stats.record, hzero]
    · have hpos : s.batches ≠ 0 := by
        rw [h.batches_eq]
        exact List.length_pos_of_mem hfirst |>.ne'
      simp only [Stats.record, if_neg hpos]
      refine ⟨?_, ?_⟩
      · rcases Nat.le_total s.min b.size with hle | hle
        · exact ⟨first, List.mem_append_left _ hfirst, hmin.trans (Nat.min_eq_left hle).symm⟩
        · exact ⟨b, by simp, (Nat.min_eq_right hle).symm⟩
      · rintro n ⟨b', hb', rfl⟩
        rcases List.mem_append.1 hb' with hold | hnew
        · exact Nat.le_trans (Nat.min_le_left _ _) (hleast ⟨b', hold, rfl⟩)
        · rw [List.mem_singleton.1 hnew]
          exact Nat.min_le_right _ _
  max_eq := by
    right
    rcases h.max_eq with ⟨rfl, hzero⟩ | ⟨⟨first, hfirst, hmax⟩, hgreatest⟩
    · simp [Stats.record, hzero]
    · refine ⟨?_, ?_⟩
      · rcases Nat.le_total s.max b.size with hle | hle
        · exact ⟨b, by simp, (Nat.max_eq_right hle).symm⟩
        · exact ⟨first, List.mem_append_left _ hfirst, hmax.trans (Nat.max_eq_left hle).symm⟩
      · rintro n ⟨b', hb', rfl⟩
        rcases List.mem_append.1 hb' with hold | hnew
        · exact Nat.le_trans (hgreatest ⟨b', hold, rfl⟩) (Nat.le_max_left _ _)
        · rw [List.mem_singleton.1 hnew]
          exact Nat.le_max_right _ _

/-! ### Looks -/

/-- A look at the queues leaves them as they are, sends what is queued, or holds it back. -/
theorem look_cases (b : Batcher) (now : Nat) :
    (b.look now = { batcher := b } ∧
      (b.queued.isEmpty = true ∨ ∃ instant, b.heldUntil = some instant ∧ now < instant)) ∨
    (b.look now = { batcher := b.send.1, sent := some b.send.2 } ∧ b.queued.isEmpty = false) ∨
    (b.look now =
        { batcher := { b with heldUntil := some (now + Clock.measured (b.delay.getD 0)) }
          alarm := some (now + Clock.measured (b.delay.getD 0)) } ∧
      b.queued.isEmpty = false ∧ b.heldUntil = none ∧ 0 < b.delay.getD 0) := by
  unfold look
  by_cases hempty : b.queued.isEmpty = true
  · exact .inl ⟨by simp [hempty], .inl hempty⟩
  · rw [if_neg hempty]
    rw [Bool.not_eq_true] at hempty
    cases hheld : b.heldUntil with
    | some instant =>
        by_cases hdue : instant ≤ now
        · exact .inr (.inl ⟨by simp [hdue], hempty⟩)
        · exact .inl ⟨by simp [hdue], .inr ⟨instant, rfl, Nat.lt_of_not_le hdue⟩⟩
    | none =>
        by_cases hdelay : b.delay.getD 0 = 0
        · exact .inr (.inl ⟨by simp [hdelay], hempty⟩)
        · exact .inr (.inr ⟨by simp [hdelay], hempty, rfl, Nat.pos_of_ne_zero hdelay⟩)

namespace Flushing

/-- What happens to a batcher on a clock. -/
inductive Step where
  | accept (a : Accept)
  | ack (a : AcceptAck)
  | settle
  | advance (span : Nat)
  deriving DecidableEq, Repr

/-- The accepts that a step queues. -/
def Step.accepts : Step → List Accept
  | .accept a => [a]
  | _ => []

/-- The acknowledgements that a step queues. -/
def Step.acks : Step → List AcceptAck
  | .ack a => [a]
  | _ => []

/-- A batcher on a clock after one more step. -/
def perform (r : Run Flushing Unit) : Step → Run Flushing Unit
  | .accept a => accept r a
  | .ack a => ack r a
  | .settle => settle r
  | .advance span => advance r span

/-- A batcher that is put on a clock and taken through steps. -/
def run (delay : Option Nat) (steps : List Step) : Run Flushing Unit :=
  steps.foldl perform (start delay)

/-- The time that passes in a step. -/
def Step.span : Step → Nat
  | .advance span => Clock.measured span
  | _ => 0

theorem now_perform (r : Run Flushing Unit) (s : Step) : (perform r s).now = r.now + s.span := by
  cases s with
  | accept a => exact Clock.now_grantAll r.clock _
  | ack a => exact Clock.now_grantAll r.clock _
  | settle => exact Run.now_settle program r
  | advance span => exact Run.now_advance program span r

theorem run_concat (delay : Option Nat) (steps : List Step) (s : Step) :
    run delay (steps ++ [s]) = perform (run delay steps) s := by
  rw [run, List.foldl_append]
  rfl

theorem now_run (delay : Option Nat) (steps : List Step) :
    (run delay steps).now = (steps.map Step.span).sum := by
  induction steps using List.reverseRecOn with
  | nil => rfl
  | append_singleton steps s ih => simp [run_concat, now_perform, ih]

/-! ### What has been sent -/

/-- What has been sent and what is queued make up what came in. -/
structure Keeps (delay : Option Nat) (accepts : List Accept) (acks : List AcceptAck)
    (f : Flushing) : Prop where
  delay_eq : f.batcher.delay = delay
  accepts_eq : f.sent.flatMap Batch.accepts ++ f.batcher.accepts = accepts
  acks_eq : f.sent.flatMap Batch.acks ++ f.batcher.acks = acks
  nonempty : ∀ b ∈ f.sent, b.isEmpty = false
  describes : f.batcher.stats.Describes f.sent

variable {delay : Option Nat} {accepts : List Accept} {acks : List AcceptAck} {f : Flushing}
variable {r : Run Flushing Unit} {now limit instant : Nat}

/-- Sending all that is queued loses nothing. -/
theorem Keeps.send (h : Keeps delay accepts acks f) (hsome : f.batcher.queued.isEmpty = false) :
    Keeps delay accepts acks ⟨f.batcher.send.1, f.sent ++ [f.batcher.send.2]⟩ where
  delay_eq := h.delay_eq
  accepts_eq := by simpa [Batcher.send, queued] using h.accepts_eq
  acks_eq := by simpa [Batcher.send, queued] using h.acks_eq
  nonempty b hb := by
    rcases List.mem_append.1 hb with hold | hnew
    · exact h.nonempty b hold
    · rw [List.mem_singleton.1 hnew]
      exact hsome
  describes := h.describes.record _

theorem Keeps.look (h : Keeps delay accepts acks f) (now : Nat) (task : Unit) :
    Keeps delay accepts acks (look now task f).1 := by
  rcases look_cases f.batcher now with ⟨heq, -⟩ | ⟨heq, hsome⟩ | ⟨heq, -⟩
  · simpa [Flushing.look, heq] using h
  · simpa [Flushing.look, heq] using h.send hsome
  · simp only [Flushing.look, heq, Option.toList_none, List.append_nil]
    exact ⟨h.delay_eq, h.accepts_eq, h.acks_eq, h.nonempty, h.describes⟩

/-- One more step adds what it queues to what came in. -/
theorem Keeps.perform (h : Keeps delay accepts acks r.state) (s : Step) :
    Keeps delay (accepts ++ s.accepts) (acks ++ s.acks) (perform r s).state := by
  cases s with
  | accept a =>
      refine ⟨h.delay_eq, ?_, ?_, h.nonempty, h.describes⟩
      · simp [Flushing.perform, Flushing.accept, Run.put, queueAccept, Step.accepts,
          ← h.accepts_eq]
      · simp [Flushing.perform, Flushing.accept, Run.put, queueAccept, Step.acks, ← h.acks_eq]
  | ack a =>
      refine ⟨h.delay_eq, ?_, ?_, h.nonempty, h.describes⟩
      · simp [Flushing.perform, Flushing.ack, Run.put, queueAck, Step.accepts, ← h.accepts_eq]
      · simp [Flushing.perform, Flushing.ack, Run.put, queueAck, Step.acks, ← h.acks_eq]
  | settle =>
      have hkeeps : Keeps delay accepts acks (settle r).state :=
        Run.settle_keeps (fun now task f hf => hf.look now task) h
      simpa [Step.accepts, Step.acks, Flushing.perform] using hkeeps
  | advance span =>
      have hkeeps : Keeps delay accepts acks (advance r span).state :=
        Run.advance_keeps (fun now task f hf => hf.look now task) h span
      simpa [Step.accepts, Step.acks, Flushing.perform] using hkeeps

theorem keeps_run (delay : Option Nat) (steps : List Step) :
    Keeps delay (steps.flatMap Step.accepts) (steps.flatMap Step.acks) (run delay steps).state := by
  induction steps using List.reverseRecOn with
  | nil => exact ⟨rfl, rfl, rfl, by simp [run, start], Stats.describes_nil⟩
  | append_singleton steps s ih =>
      rw [run_concat, List.flatMap_append, List.flatMap_append, List.flatMap_singleton,
        List.flatMap_singleton]
      exact ih.perform s

/-! ### What the task waits for -/

/-- The flushing task has run, and nothing is queued, or a batch is held back until an instant that
is not after the limit. -/
inductive Rests (limit : Nat) (r : Run Flushing Unit) : Prop
  | idle (hready : r.clock.ready = []) (halarms : r.clock.alarms = [])
      (hempty : r.state.batcher.queued.isEmpty = true) (hheld : r.state.batcher.heldUntil = none)
  | holding {instant : Nat} (hready : r.clock.ready = [])
      (halarms : r.clock.alarms = [(instant, ())])
      (hsome : r.state.batcher.queued.isEmpty = false)
      (hheld : r.state.batcher.heldUntil = some instant) (hlt : r.now < instant)
      (hle : instant ≤ limit)

/-- The flushing task is in the queue and holds nothing back. -/
structure Woken (r : Run Flushing Unit) : Prop where
  ready : r.clock.ready = [()]
  alarms : r.clock.alarms = []
  held : r.state.batcher.heldUntil = none

/-- The flushing task is in the queue because a delay has passed. -/
structure Due (r : Run Flushing Unit) : Prop where
  ready : r.clock.ready = [()]
  alarms : r.clock.alarms = []
  nonempty : r.state.batcher.queued.isEmpty = false
  held : ∃ instant, r.state.batcher.heldUntil = some instant ∧ instant ≤ r.now

theorem woken_start (delay : Option Nat) : Woken (start delay) := ⟨rfl, rfl, rfl⟩

theorem Rests.mono (h : Rests limit r) {limit' : Nat} (hle : limit ≤ limit') : Rests limit' r := by
  cases h with
  | idle hready halarms hempty hheld => exact .idle hready halarms hempty hheld
  | holding hready halarms hsome hheld hlt hlimit =>
      exact .holding hready halarms hsome hheld hlt (Nat.le_trans hlimit hle)

/-- A batcher that rests at its limit has nothing to send. -/
theorem Rests.isEmpty (h : Rests limit r) (hle : limit ≤ r.now) :
    r.state.batcher.queued.isEmpty = true := by
  cases h with
  | idle _ _ hempty _ => exact hempty
  | holding _ _ _ _ hlt hlimit => omega

theorem Rests.settle_eq (h : Rests limit r) : settle r = r := by
  have hready : r.clock.ready = [] := by
    cases h <;> assumption
  exact Run.settleWithin_of_ready program hready _

theorem Rests.settle (h : Rests limit r) : Rests limit (settle r) := by
  rw [h.settle_eq]
  exact h

/-- A task that is alone in the queue settles with one look. -/
theorem settle_of_ready (hready : r.clock.ready = [()]) : settle r =
    Run.put ⟨{ r.clock with ready := [] }, r.state⟩ (look r.now () r.state) := by
  simp only [settle, Run.settle, program, hready, List.length_singleton, Run.settleWithin, Run.now]

/-- A task that looks rests afterwards, and holds a batch back no longer than the delay. -/
theorem Woken.settle (h : Woken r) :
    Rests (r.now + Clock.measured (r.state.batcher.delay.getD 0)) (settle r) := by
  rw [settle_of_ready h.ready]
  rcases look_cases r.state.batcher r.now with ⟨heq, hstay⟩ | ⟨heq, -⟩ | ⟨heq, hsome, -, hpos⟩
  · have hempty : r.state.batcher.queued.isEmpty = true :=
      hstay.resolve_right fun ⟨instant, hheld, _⟩ => by simp [h.held] at hheld
    simp only [Flushing.look, heq]
    exact .idle rfl h.alarms hempty h.held
  · simp only [Flushing.look, heq]
    exact .idle rfl h.alarms rfl rfl
  · have hlt : r.now < r.now + Clock.measured (r.state.batcher.delay.getD 0) :=
      Nat.lt_add_of_pos_right (Nat.lt_min.2 ⟨hpos, by decide⟩)
    have hclock : Clock.setAlarm { r.clock with ready := [] } ()
        (r.now + Clock.measured (r.state.batcher.delay.getD 0)) =
          { r.clock with
            ready := []
            alarms := [(r.now + Clock.measured (r.state.batcher.delay.getD 0), ())] } :=
      Clock.setAlarm_of_alarms_eq_nil h.alarms hlt
    simp only [Flushing.look, heq, Option.toList_some, Option.toList_none, List.append_nil,
      List.map_cons, List.map_nil, Run.put, Clock.grantAll, List.foldl_cons, List.foldl_nil,
      Clock.grant, hclock]
    exact .holding rfl rfl hsome rfl hlt (Nat.le_refl _)

/-- When the delay has passed, the batch is sent. -/
theorem Due.settle (h : Due r) : Rests limit (settle r) := by
  obtain ⟨instant, hheld, hle⟩ := h.held
  rw [settle_of_ready h.ready]
  rcases look_cases r.state.batcher r.now with ⟨-, hstay⟩ | ⟨heq, -⟩ | ⟨-, -, hnone, -⟩
  · rcases hstay with hempty | ⟨instant', hheld', hlt⟩
    · rw [h.nonempty] at hempty
      cases hempty
    · rw [hheld] at hheld'
      cases hheld'
      omega
  · simp only [Flushing.look, heq]
    exact .idle rfl h.alarms rfl rfl
  · rw [hheld] at hnone
    cases hnone

/-- A message that is queued wakes the task if it is idle. -/
theorem Rests.queue (h : Rests limit r) {b : Batcher} (hsome : b.queued.isEmpty = false)
    (hheld : b.heldUntil = r.state.batcher.heldUntil) :
    Woken (r.put ({ r.state with batcher := b }, notice r.state.batcher)) ∨
      Rests limit (r.put ({ r.state with batcher := b }, notice r.state.batcher)) := by
  cases h with
  | idle hready halarms _ hnone =>
      refine .inl ⟨?_, ?_, hheld.trans hnone⟩ <;>
        simp [Run.put, notice, isIdle, hnone, Clock.grantAll, Clock.grant, Clock.wake, hready,
          halarms]
  | holding hready halarms _ hsince hlt hle =>
      have hnotice : notice r.state.batcher = [] := by simp [notice, isIdle, hsince]
      rw [hnotice]
      exact .inr (.holding hready halarms hsome (hheld.trans hsince) hlt hle)

theorem Woken.queue (h : Woken r) {b : Batcher} (hheld : b.heldUntil = r.state.batcher.heldUntil) :
    Woken (r.put ({ r.state with batcher := b }, notice r.state.batcher)) := by
  refine ⟨?_, ?_, hheld.trans h.held⟩ <;>
    simp [Run.put, notice, isIdle, h.held, Clock.grantAll, Clock.grant, Clock.wake, h.ready,
      h.alarms]

/-- While time passes a batch may come to be due. -/
theorem Rests.moveTo (h : Rests limit r) (instant : Nat) :
    Rests limit ⟨r.clock.moveTo instant, r.state⟩ ∨ Due ⟨r.clock.moveTo instant, r.state⟩ := by
  cases h with
  | idle hready halarms hempty hheld =>
      refine .inl (.idle ?_ ?_ hempty hheld) <;> simp [Clock.moveTo, halarms, hready]
  | @holding alarm hready halarms hsome hheld _ hlimit =>
      by_cases hdue : alarm ≤ instant
      · refine .inr ⟨?_, ?_, hsome, alarm, hheld, ?_⟩ <;>
          simp [Clock.moveTo, halarms, hready, hdue, Clock.wake, Run.now]
      · have hlt : instant < alarm := Nat.lt_of_not_le hdue
        refine .inl (.holding ?_ ?_ hsome hheld ?_ hlimit) <;>
          simp [Clock.moveTo, halarms, hready, hlt, Run.now]

theorem Rests.approach (h : Rests limit r) (instant : Nat) :
    Rests limit (r.approach program instant) ∨ Due (r.approach program instant) := by
  fun_induction Run.approach program instant r with
  | case1 r => exact h.moveTo instant
  | case2 r next _ _ ih =>
      refine ih ?_
      rcases h.moveTo next with hrests | hdue
      · exact hrests.settle
      · exact hdue.settle
  | case3 r => exact h.moveTo instant

/-- Whatever time passes, a batch is held back no longer than before. -/
theorem Rests.advance (h : Rests limit r) (span : Nat) : Rests limit (advance r span) := by
  have hsettle : r.settle program = r := h.settle_eq
  rw [Flushing.advance, Run.advance, hsettle]
  rcases h.approach (r.now + Clock.measured span) with hrests | hdue
  · exact hrests.settle
  · exact hdue.settle

theorem Woken.advance (h : Woken r) (span : Nat) :
    Rests (r.now + Clock.measured (r.state.batcher.delay.getD 0)) (advance r span) := by
  have hrests := h.settle.advance span
  have hsettle : (Flushing.settle r).settle program = r.settle program := h.settle.settle_eq
  rwa [Flushing.advance, Run.advance, hsettle, Flushing.settle, Run.now_settle] at hrests

/-- While nothing is queued, a batch is held back no longer than before. -/
theorem Rests.perform (h : Rests limit r) {s : Step} (haccepts : s.accepts = [])
    (hacks : s.acks = []) : Rests limit (perform r s) := by
  cases s with
  | accept a => cases haccepts
  | ack a => cases hacks
  | settle => exact h.settle
  | advance span => exact h.advance span

theorem Rests.performAll (h : Rests limit r) {pauses : List Step}
    (hpauses : ∀ s ∈ pauses, s.accepts = [] ∧ s.acks = []) :
    Rests limit (pauses.foldl Flushing.perform r) := by
  induction pauses generalizing r with
  | nil => exact h
  | cons s pauses ih =>
      obtain ⟨haccepts, hacks⟩ := hpauses s List.mem_cons_self
      exact ih (h.perform haccepts hacks) fun s hs => hpauses s (List.mem_cons_of_mem _ hs)

/-- At any time the flushing task is about to look, or it rests and holds a batch back no longer
than the delay. -/
theorem woken_or_rests_run (delay : Option Nat) (steps : List Step) :
    Woken (run delay steps) ∨
      Rests ((run delay steps).now + Clock.measured (delay.getD 0)) (run delay steps) := by
  induction steps using List.reverseRecOn with
  | nil => exact .inl (woken_start delay)
  | append_singleton steps s ih =>
      have hdelay := (keeps_run delay steps).delay_eq
      rw [run_concat]
      generalize run delay steps = r at ih hdelay ⊢
      subst hdelay
      rw [now_perform]
      cases s with
      | accept a =>
          rcases ih with h | h
          · exact .inl (h.queue rfl)
          · have hsome : (r.state.batcher.queueAccept a).queued.isEmpty = false := by
              simp [queueAccept, queued, Batch.isEmpty, Batch.size]
            exact h.queue hsome rfl
      | ack a =>
          rcases ih with h | h
          · exact .inl (h.queue rfl)
          · have hsome : (r.state.batcher.queueAck a).queued.isEmpty = false := by
              simp [queueAck, queued, Batch.isEmpty, Batch.size]
            exact h.queue hsome rfl
      | settle => exact .inr (ih.elim Woken.settle Rests.settle)
      | advance span =>
          have hrests := ih.elim (fun h => h.advance span) fun h => h.advance span
          exact .inr (hrests.mono (by omega))

/-- When the task has run, a batch is held back for the delay at most. -/
theorem rests_settle (delay : Option Nat) (steps : List Step) :
    Rests ((run delay steps).now + Clock.measured (delay.getD 0)) (settle (run delay steps)) := by
  rcases woken_or_rests_run delay steps with h | h
  · have hdelay := (keeps_run delay steps).delay_eq
    have hsettle := h.settle
    rwa [hdelay] at hsettle
  · exact h.settle

/-- Messages are queued, and the flushing task runs and time passes in between. The accepts in the
batches that have been sent are the first ones that were queued, in the order in which they were
queued, and so are the acknowledgements. No batch is empty, and the statistics describe the batches
that have been sent. If the task has run and no message is queued since then, everything has been
sent once the delay has passed; without a delay, at once. -/
theorem sent_in_order (delay : Option Nat) (steps : List Step) :
    let f := (run delay steps).state
    f.sent.flatMap Batch.accepts <+: steps.flatMap Step.accepts ∧
    f.sent.flatMap Batch.acks <+: steps.flatMap Step.acks ∧
    (∀ b ∈ f.sent, b.isEmpty = false) ∧
    f.batcher.stats.Describes f.sent ∧
    ∀ pauses : List Step, (∀ s ∈ pauses, s.accepts = [] ∧ s.acks = []) →
      let settled := run delay (steps ++ [.settle])
      let later := run delay (steps ++ [.settle] ++ pauses)
      settled.now + delay.getD 0 ≤ later.now →
        later.state.sent.flatMap Batch.accepts = steps.flatMap Step.accepts ∧
        later.state.sent.flatMap Batch.acks = steps.flatMap Step.acks := by
  intro f
  have hkeeps := keeps_run delay steps
  refine ⟨⟨_, hkeeps.accepts_eq⟩, ⟨_, hkeeps.acks_eq⟩, hkeeps.nonempty, hkeeps.describes, ?_⟩
  intro pauses hpauses settled later hpassed
  have hlater : later = pauses.foldl perform settled := List.foldl_append
  have hsettled : settled = settle (run delay steps) := run_concat delay steps .settle
  have hnow : settled.now = (run delay steps).now := by
    rw [hsettled, settle, Run.now_settle]
  have hrests : Rests (settled.now + Clock.measured (delay.getD 0)) later := by
    rw [hlater, hnow, hsettled]
    exact (rests_settle delay steps).performAll hpauses
  have hmeasured := Clock.measured_le (delay.getD 0)
  have hempty : later.state.batcher.queued.isEmpty = true := hrests.isEmpty (by omega)
  have hnone : later.state.batcher.accepts = [] ∧ later.state.batcher.acks = [] := by
    simpa [queued, Batch.isEmpty, Batch.size] using hempty
  have hin := keeps_run delay (steps ++ [.settle] ++ pauses)
  have haccepts : pauses.flatMap Step.accepts = [] :=
    List.flatMap_eq_nil_iff.2 fun s hs => (hpauses s hs).1
  have hacks : pauses.flatMap Step.acks = [] :=
    List.flatMap_eq_nil_iff.2 fun s hs => (hpauses s hs).2
  have hall := hin.accepts_eq
  have hall' := hin.acks_eq
  rw [hnone.1, List.append_nil] at hall
  rw [hnone.2, List.append_nil] at hall'
  refine ⟨hall.trans ?_, hall'.trans ?_⟩
  · simp [haccepts, Step.accepts]
  · simp [hacks, Step.acks]

/-- Two accepts with an acknowledgement between them; the second accept comes while the first is
held back. -/
def heldBack : List Step :=
  [.accept ⟨0, ⟨1, 0⟩, 0, none, false⟩, .ack ⟨0, 0, 1⟩, .settle, .advance 3,
    .accept ⟨0, ⟨1, 1⟩, 1, none, false⟩]

/-- With a delay of five, all three messages have been sent five after the task has run. -/
theorem sent_in_order_heldBack :
    (run (some 5) (heldBack ++ [.settle])).now + 5 ≤
        (run (some 5) (heldBack ++ [.settle] ++ [.advance 2, .advance 3])).now ∧
      (run (some 5) (heldBack ++ [.settle] ++ [.advance 2, .advance 3])).state.sent.flatMap
        Batch.accepts = [⟨0, ⟨1, 0⟩, 0, none, false⟩, ⟨0, ⟨1, 1⟩, 1, none, false⟩] := by
  have hpassed : (run (some 5) (heldBack ++ [.settle])).now + 5 ≤
      (run (some 5) (heldBack ++ [.settle] ++ [.advance 2, .advance 3])).now := by
    rw [now_run, now_run]
    decide
  obtain ⟨-, -, -, -, hsent⟩ := sent_in_order (some 5) heldBack
  exact ⟨hpassed, (hsent [.advance 2, .advance 3] (by decide) hpassed).1⟩

end Flushing

end Batcher

end WitnessReplication
