import WitnessReplication.Batcher
import WitnessReplication.Clock
import WitnessReplication.Registry
import WitnessReplication.Replica.Handling

/-!
# Hosts

A host runs a replica by tasks. As long as there is room, a slot gets a task of its own, and its
events wait in the mailbox of that task; other slots are served on the spot. A weak command that
the leader has to put in order gets a task that waits for what the command depends on. One more
task flushes the batcher, if messages are batched.

A host acts by `Signal`s: messages that it sends, and requests to the clock that runs its tasks.
-/

namespace WitnessReplication

namespace Host

/-- The tasks of a host: one serves a slot, one follows a weak command, one flushes batches. -/
inductive Task where
  | slot (slot : Slot)
  | weak (number : Nat)
  | flush
  deriving DecidableEq, Repr

/-- What the task of a weak command does next: it begins; it waits, until a deadline, for the
client's previous weak command, for its slot to commit, or for its slot to execute. -/
inductive Stage where
  | begin
  | dependency (deadline : Nat)
  | commit (slot : Slot) (deadline : Nat)
  | execute (slot : Slot) (deadline : Nat)
  deriving DecidableEq, Repr

/-- A weak command and the stage of its task. -/
structure WeakTask where
  command : Replica.WeakCommand
  stage : Stage
  deriving DecidableEq, Repr

/-- What a host does to the world outside it. -/
inductive Signal where
  | send (message : Sent)
  | request (request : Clock.Request Task)
  deriving DecidableEq, Repr

/-- The signals that wake tasks. -/
def wakeAll (tasks : List Task) : List Signal :=
  tasks.map fun task => .request (.wake task)

end Host

open Host in
/-- A replica with the mailboxes of the slots that have tasks, the tasks of weak commands, the
channels on which commits and executions are notified, and the batcher if there is one. -/
structure Host where
  replica : Replica
  mailboxes : Std.ExtTreeMap Slot (List Replica.Event)
  weak : Std.ExtTreeMap Nat WeakTask
  spawned : Nat
  commits : Registry Slot Task
  executions : Registry Slot Task
  weakDeps : Registry ClientId Task
  batcher : Option Batcher

namespace Host

open Replica (Effect Event LiveSlot)

/-- Puts a host under way, with the task that flushes batches if messages are batched. -/
def start (id : ReplicaId) (config : Config) : Except ConfigError (Host × List Signal) :=
  match config.validateReplica id with
  | .error e => .error e
  | .ok () =>
    let host : Host :=
      { replica := .initial id config
        mailboxes := ∅
        weak := ∅
        spawned := 0
        commits := .empty
        executions := .empty
        weakDeps := .empty
        batcher := if config.batching then some { delay := config.batchDelay } else none }
    .ok (host, if config.batching then [.request (.wake .flush)] else [])

/-- Queues a message in the batcher, or sends it alone where nothing is batched. -/
def batchOrSend (h : Host) (queue : Batcher → Batcher) (alone : Sent) : Host × List Signal :=
  match h.batcher with
  | none => (h, [.send alone])
  | some b =>
    ({ h with batcher := some (queue b) }, if b.isIdle then [.request (.wake .flush)] else [])

/-- Carries out an effect of the replica. A slot that is opened gets a task if there is room. -/
def emit (h : Host) : Effect → Host × List Signal
  | .broadcast m => (h, [.send (.toAll m)])
  | .tell client m => (h, [.send (.toClient client m)])
  | .accept a => h.batchOrSend (fun b => b.queueAccept a) (.toAll (.accept a))
  | .acceptAck a =>
    h.batchOrSend (fun b => b.queueAck a) (.toReplica h.replica.config.leader (.acceptAck a))
  | .opened slot =>
    if h.mailboxes.size < h.replica.config.maxSlotTasks then
      ({ h with mailboxes := h.mailboxes.insert slot [] }, [.request (.wake (.slot slot))])
    else (h, [])
  | .committed slot =>
    let closed := h.commits.close slot
    ({ h with commits := closed.1 }, wakeAll closed.2)
  | .executed slot =>
    let closed := h.executions.close slot
    ({ h with executions := closed.1 }, wakeAll closed.2)
  | .weakExecuted client =>
    let closed := h.weakDeps.close client
    ({ h with weakDeps := closed.1 }, wakeAll closed.2)

/-- Carries out effects in order. -/
def emitAll (h : Host) : List Effect → Host × List Signal
  | [] => (h, [])
  | effect :: effects =>
    let first := h.emit effect
    let rest := first.1.emitAll effects
    (rest.1, first.2 ++ rest.2)

/-- Replaces the replica and carries out the effects that come with it. -/
def adopt (h : Host) (r : Replica) (effects : List Effect) : Host × List Signal :=
  { h with replica := r }.emitAll effects

@[simp] theorem replica_batchOrSend (h : Host) (queue : Batcher → Batcher) (alone : Sent) :
    (h.batchOrSend queue alone).1.replica = h.replica := by
  unfold batchOrSend; split <;> rfl

@[simp] theorem replica_emit (h : Host) (effect : Effect) :
    (h.emit effect).1.replica = h.replica := by
  cases effect <;> simp only [emit, replica_batchOrSend]
  split <;> rfl

@[simp] theorem replica_emitAll (h : Host) (effects : List Effect) :
    (h.emitAll effects).1.replica = h.replica := by
  induction effects generalizing h with
  | nil => rfl
  | cons effect effects ih => simp only [emitAll, ih, replica_emit]

@[simp] theorem replica_adopt (h : Host) (r : Replica) (effects : List Effect) :
    (h.adopt r effects).1.replica = r := by
  simp only [adopt, replica_emitAll]

end Host

end WitnessReplication
