import WitnessReplication.Host.Weak

/-!
# Running a host

What a host does with a message and at one look of a task, and a host on a clock of its own:
messages are handed to it, time passes, and someone may wait until a slot has executed.
-/

namespace WitnessReplication.Host

/-- Handles a message. A weak command that the leader has to put in order gets a task. -/
def handle (h : Host) (m : ReplicaMessage) : Host × List Signal :=
  let response := h.replica.respond m
  let done := { h with replica := response.replica }.performAll response.steps
  match response.weak with
  | none => done
  | some w =>
    let spawned := done.1.spawnWeak w
    (spawned.1, done.2 ++ spawned.2)

/-- Handles messages one after another. -/
def handleAll (h : Host) : List ReplicaMessage → Host × List Signal
  | [] => (h, [])
  | m :: ms =>
    let first := h.handle m
    let rest := first.1.handleAll ms
    (rest.1, first.2 ++ rest.2)

/-- One look of the task that flushes batches. -/
def lookFlush (h : Host) (now : Nat) : Host × List Signal :=
  match h.batcher with
  | none => (h, [])
  | some b =>
    let looked := b.look now
    ({ h with batcher := some looked.batcher },
      (looked.sent.toList.map fun batch => Signal.send (.toAll (.batch batch))) ++
        looked.alarm.toList.map fun instant => .request (.alarm .flush instant))

/-- One look of a task. -/
def look (h : Host) (now : Nat) : Task → Host × List Signal
  | .slot slot => h.lookSlot slot
  | .weak number => h.lookWeak now number
  | .flush => h.lookFlush now

/-- A bound on the looks it takes to settle. Every event and every live slot is settled by one
look, which wakes at most every weak command's task a few times; a weak command brings one event
and one slot more. -/
def effort (queued : Nat) (h : Host) : Nat :=
  let events := (h.mailboxes.toList.map fun mailbox => mailbox.2.length).foldr (· + ·) 0
  32 * (h.weak.size + 1) * (queued + events + h.replica.live.size + h.weak.size + 1)

/-- A host and the messages it has sent. -/
structure Running where
  host : Host
  sent : List Sent := []

namespace Running

/-- The messages among signals. -/
def messages (signals : List Signal) : List Sent :=
  signals.filterMap fun
    | .send m => some m
    | .request _ => none

/-- The requests among signals. -/
def requests (signals : List Signal) : List (Clock.Request Task) :=
  signals.filterMap fun
    | .send _ => none
    | .request r => some r

/-- Takes note of the messages among signals and passes the requests on. -/
def note (r : Running) (change : Host × List Signal) : Running × List (Clock.Request Task) :=
  (⟨change.1, r.sent ++ messages change.2⟩, requests change.2)

/-- A running host as a program. -/
def program : Program Running Task where
  look now task r := r.note (r.host.look now task)
  effort queued r := effort queued r.host

/-- Puts a host under way on a clock of its own; its tasks have not run yet. -/
def start (id : ReplicaId) (config : Config) : Except ConfigError (Run Running Task) :=
  match Host.start id config with
  | .error e => .error e
  | .ok (host, signals) => .ok (Run.put ⟨{}, { host }⟩ ({ host }, requests signals))

/-- Hands a message to the host and lets its tasks run. -/
def message (r : Run Running Task) (m : ReplicaMessage) : Run Running Task :=
  (r.put (r.state.note (r.state.host.handle m))).settle program

/-- Hands messages to the host one after another, and then lets its tasks run. -/
def burst (r : Run Running Task) (ms : List ReplicaMessage) : Run Running Task :=
  (r.put (r.state.note (r.state.host.handleAll ms))).settle program

/-- Lets time pass. -/
def advance (r : Run Running Task) (span : Nat) : Run Running Task :=
  r.advance program span

/-- Waits until a slot has executed, up to an instant. At that instant the slot is looked at before
the tasks that are due run. -/
def waitUntil (slot : Slot) (deadline : Nat) (r : Run Running Task) :
    Run Running Task × WaitOutcome :=
  if r.state.host.replica.isExecuted slot then (r, .notified)
  else
    match r.clock.nextAlarm? with
    | some next =>
      if r.now < next ∧ next < deadline then waitUntil slot deadline (r.moveTo program next)
      else (r.moveTo program deadline, .timedOut)
    | none => (r.moveTo program deadline, .timedOut)
termination_by deadline - r.now
decreasing_by
  rw [Run.now_runMoveTo]
  omega

/-- Waits until a slot has executed, for at most `span`. -/
def waitExecuted (r : Run Running Task) (slot : Slot) (span : Nat) :
    Run Running Task × WaitOutcome :=
  waitUntil slot (r.now + span) (r.settle program)

/-- Takes the messages sent since the last time. -/
def takeSent (r : Run Running Task) : Run Running Task × List Sent :=
  (r.put ({ r.state with sent := [] }, []), r.state.sent)

end Running

end WitnessReplication.Host
