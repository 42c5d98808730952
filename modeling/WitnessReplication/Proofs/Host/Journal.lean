import WitnessReplication.Proofs.Host.Receiving

/-!
# Journals of hosts

What happens at a running host is a sequence of moments: it handles a message, or the task at the
head of the queue looks. Between moments time passes. `Running.Journal` relates a running host to
the moments so far, for any messages and any passing of time, and whoever may wait in between:
handing over a message, handing over many at once, letting time pass and waiting for a slot all
extend the journal (`Journal.message`, `Journal.burst`, `Journal.advance`, `Journal.waitExecuted`).

## Implementation notes

A journal lets messages come in while tasks are in the queue, and lets time pass then as well, so
that it covers every timing.
-/

namespace WitnessReplication

namespace Host

open Replica (WeakCommand)

/-- What a host does at a moment. -/
inductive Act where
  | handle (m : ReplicaMessage)
  | look (now : Nat) (task : Task)

/-- A host before it does something, and what it does. -/
structure Moment where
  host : Host
  act : Act

/-- What comes of a moment. -/
def Moment.outcome (x : Moment) : Host × List Signal :=
  match x.act with
  | .handle m => x.host.handle m
  | .look now task => x.host.look now task

@[simp] theorem Moment.outcome_handle (h : Host) (m : ReplicaMessage) :
    (⟨h, .handle m⟩ : Moment).outcome = h.handle m := rfl

@[simp] theorem Moment.outcome_look (h : Host) (now : Nat) (task : Task) :
    (⟨h, .look now task⟩ : Moment).outcome = h.look now task := rfl

/-- The message that is handled at a moment. -/
def Moment.message? (x : Moment) : Option ReplicaMessage :=
  match x.act with
  | .handle m => some m
  | .look _ _ => none

/-- The messages that have been handled. -/
def handled (log : List Moment) : List ReplicaMessage := log.filterMap Moment.message?

/-- The weak commands handed over, in order of arrival. -/
def commands (log : List Moment) : List WeakCommand :=
  (handled log).filterMap ReplicaMessage.weakCommand?

namespace Running

/-- A running host with the moments since it was put under way. -/
inductive Journal (id : ReplicaId) (config : Config) : Run Running Task → List Moment → Prop
  | start {r : Run Running Task} (h : Running.start id config = .ok r) : Journal id config r []
  /-- A message is handled. -/
  | handle {r : Run Running Task} {log : List Moment} (h : Journal id config r log)
      (m : ReplicaMessage) :
      Journal id config (r.put (r.state.note (r.state.host.handle m)))
        (log ++ [⟨r.state.host, .handle m⟩])
  /-- The task at the head of the queue looks. -/
  | look {r : Run Running Task} {log : List Moment} (h : Journal id config r log) {task : Task}
      {ready : List Task} (hready : r.clock.ready = task :: ready) :
      Journal id config
        (Run.put ⟨{ r.clock with ready := ready }, r.state⟩
          (r.state.note (r.state.host.look r.now task)))
        (log ++ [⟨r.state.host, .look r.now task⟩])
  /-- Time passes, and the alarms that are due wake their tasks. -/
  | pass {r : Run Running Task} {log : List Moment} (h : Journal id config r log) {instant : Nat}
      (hle : r.now ≤ instant) : Journal id config ⟨r.clock.moveTo instant, r.state⟩ log
  /-- The messages sent so far are taken. -/
  | take {r : Run Running Task} {log : List Moment} (h : Journal id config r log) :
      Journal id config (takeSent r).1 log

variable {id : ReplicaId} {config : Config} {r : Run Running Task} {log : List Moment}

namespace Journal

/-- Tasks that run extend the journal. -/
theorem settleWithin (h : Journal id config r log) (bound : Nat) :
    ∃ more, Journal id config (r.settleWithin program bound) (log ++ more) := by
  induction bound generalizing r log with
  | zero => exact ⟨[], by simpa [Run.settleWithin] using h⟩
  | succ bound ih =>
      unfold Run.settleWithin
      split
      · exact ⟨[], by simpa using h⟩
      · rename_i task ready hready
        obtain ⟨more, hmore⟩ := ih (h.look hready)
        rw [List.append_assoc] at hmore
        exact ⟨_, hmore⟩

theorem settle (h : Journal id config r log) :
    ∃ more, Journal id config (r.settle program) (log ++ more) := h.settleWithin _

theorem moveTo (h : Journal id config r log) {instant : Nat} (hle : r.now ≤ instant) :
    ∃ more, Journal id config (r.moveTo program instant) (log ++ more) := (h.pass hle).settle

theorem approach (h : Journal id config r log) {instant : Nat} (hle : r.now ≤ instant) :
    ∃ more, Journal id config (r.approach program instant) (log ++ more) := by
  fun_induction Run.approach program instant r generalizing log with
  | case1 r hnone => exact ⟨[], by simpa using h.pass hle⟩
  | case2 r next hnext hbetween ih =>
      obtain ⟨more, hmoved⟩ := h.moveTo (Nat.le_of_lt hbetween.1)
      obtain ⟨more', hrest⟩ := ih hmoved (by rw [Run.now_runMoveTo]; omega)
      rw [List.append_assoc] at hrest
      exact ⟨_, hrest⟩
  | case3 r next hnext hbetween => exact ⟨[], by simpa using h.pass hle⟩

/-- A message that is handled, and the tasks that run then, extend the journal. -/
theorem message (h : Journal id config r log) (m : ReplicaMessage) :
    ∃ more, Journal id config (Running.message r m)
      (log ++ ⟨r.state.host, .handle m⟩ :: more) := by
  obtain ⟨more, hmore⟩ := (h.handle m).settle
  rw [List.append_assoc] at hmore
  exact ⟨more, hmore⟩

/-- Messages that come in at once extend the journal. -/
theorem burst (h : Journal id config r log) (ms : List ReplicaMessage) :
    ∃ more, Journal id config (Running.burst r ms) (log ++ more) := by
  have hhandled : ∃ more, Journal id config
      (r.put (r.state.note (r.state.host.handleAll ms))) (log ++ more) := by
    induction ms generalizing r log with
    | nil =>
        refine ⟨[], ?_⟩
        simpa [handleAll, note, messages, requests, Run.put, Clock.grantAll] using h
    | cons m ms ih =>
        obtain ⟨more, hmore⟩ := ih (h.handle m)
        rw [List.append_assoc] at hmore
        have hcons : r.put (r.state.note (r.state.host.handleAll (m :: ms))) =
            (r.put (r.state.note (r.state.host.handle m))).put
              ((r.put (r.state.note (r.state.host.handle m))).state.note
                ((r.put (r.state.note (r.state.host.handle m))).state.host.handleAll ms)) := by
          simp only [handleAll, note, messages, requests, Run.put, Clock.grantAll,
            List.filterMap_append, List.foldl_append, List.append_assoc]
        rw [hcons]
        exact ⟨_, hmore⟩
  obtain ⟨more, hmore⟩ := hhandled
  obtain ⟨more', hrest⟩ := hmore.settle
  rw [List.append_assoc] at hrest
  exact ⟨_, hrest⟩

/-- A span that passes extends the journal. -/
theorem advance (h : Journal id config r log) (span : Nat) :
    ∃ more, Journal id config (Running.advance r span) (log ++ more) := by
  obtain ⟨more, hsettled⟩ := h.settle
  have hle : (r.settle program).now ≤ r.now + Clock.measured span := by
    rw [Run.now_settle]
    omega
  obtain ⟨more', hpassed⟩ := hsettled.approach hle
  obtain ⟨more'', hrest⟩ := hpassed.settle
  rw [List.append_assoc, List.append_assoc] at hrest
  exact ⟨_, hrest⟩

/-- Waiting until a slot has executed extends the journal. -/
theorem waitUntil (h : Journal id config r log) {slot : Slot} {deadline : Nat}
    (hle : r.now ≤ deadline) :
    ∃ more, Journal id config (Running.waitUntil slot deadline r).1 (log ++ more) := by
  fun_induction Running.waitUntil slot deadline r generalizing log with
  | case1 r hexec => exact ⟨[], by simpa using h⟩
  | case2 r hexec next hnext hbetween ih =>
      obtain ⟨more, hmoved⟩ := h.moveTo (Nat.le_of_lt hbetween.1)
      obtain ⟨more', hrest⟩ := ih hmoved (by rw [Run.now_runMoveTo]; omega)
      rw [List.append_assoc] at hrest
      exact ⟨_, hrest⟩
  | case3 r hexec next hnext hbetween => exact h.moveTo hle
  | case4 r hexec hnone => exact h.moveTo hle

theorem waitExecuted (h : Journal id config r log) (slot : Slot) (span : Nat) :
    ∃ more, Journal id config (Running.waitExecuted r slot span).1 (log ++ more) := by
  obtain ⟨more, hsettled⟩ := h.settle
  have hle : (r.settle program).now ≤ r.now + span := by
    rw [Run.now_settle]
    omega
  obtain ⟨more', hrest⟩ : ∃ more', Journal id config
      (Running.waitUntil slot (r.now + span) (r.settle program)).1 (log ++ more ++ more') :=
    hsettled.waitUntil hle
  rw [List.append_assoc] at hrest
  exact ⟨_, hrest⟩

end Journal

/-! ### Replaying -/

/-- A running host without batches that has done nothing yet. -/
def fresh (id : ReplicaId) (config : Config) : Run Running Task where
  clock := {}
  state := {
    host := {
      replica := .initial id config
      mailboxes := ∅
      weak := ∅
      spawned := 0
      commits := .empty
      executions := .empty
      weakDeps := .empty
      batcher := none } }

theorem start_eq_fresh (hvalid : config.validateReplica id = .ok ())
    (hbatching : config.batching = false) : start id config = .ok (fresh id config) := by
  simp only [start, Host.start, hvalid, hbatching]
  rfl

/-- What can happen to a running host. -/
inductive Deed where
  | handle (m : ReplicaMessage)
  | look
  | pass (span : Nat)

/-- A running host and its journal after one more deed. Nobody looks where no task is in the
queue. -/
def act (state : Run Running Task × List Moment) : Deed → Run Running Task × List Moment
  | .handle m =>
    (state.1.put (state.1.state.note (state.1.state.host.handle m)),
      state.2 ++ [⟨state.1.state.host, .handle m⟩])
  | .look =>
    match state.1.clock.ready with
    | [] => state
    | task :: ready =>
      (Run.put ⟨{ state.1.clock with ready := ready }, state.1.state⟩
          (state.1.state.note (state.1.state.host.look state.1.now task)),
        state.2 ++ [⟨state.1.state.host, .look state.1.now task⟩])
  | .pass span => (⟨state.1.clock.moveTo (state.1.now + span), state.1.state⟩, state.2)

/-- A host without batches, put under way and taken through a list of deeds. -/
def replay (id : ReplicaId) (config : Config) (deeds : List Deed) :
    Run Running Task × List Moment :=
  deeds.foldl act (fresh id config, [])

theorem Journal.act {state : Run Running Task × List Moment}
    (h : Journal id config state.1 state.2) (deed : Deed) :
    Journal id config (act state deed).1 (act state deed).2 := by
  cases deed with
  | handle m => exact h.handle m
  | look =>
      cases hready : state.1.clock.ready with
      | nil =>
          simp only [Running.act, hready]
          exact h
      | cons task ready =>
          simp only [Running.act, hready]
          exact h.look hready
  | pass span => exact h.pass (Nat.le_add_right _ _)

theorem journal_replay (hvalid : config.validateReplica id = .ok ())
    (hbatching : config.batching = false) (deeds : List Deed) :
    Journal id config (replay id config deeds).1 (replay id config deeds).2 := by
  have hfold : ∀ state : Run Running Task × List Moment, Journal id config state.1 state.2 →
      Journal id config (deeds.foldl Running.act state).1 (deeds.foldl Running.act state).2 := by
    induction deeds with
    | nil => exact fun state h => h
    | cons deed deeds ih => exact fun state h => ih _ (h.act deed)
  exact hfold _ (.start (start_eq_fresh hvalid hbatching))

end Running

end Host

end WitnessReplication
