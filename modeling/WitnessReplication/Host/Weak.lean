import WitnessReplication.Host.Slots

/-!
# Tasks of weak commands

The leader puts a weak command in order once its client's previous weak command has executed, so
that one client's weak commands take increasing slots. The command's task then waits for its slot
to commit and to execute, and answers the client if the variant answers after execution. Each
wait is bounded; when it times out the task goes on, or gives up if the slot has not executed.
-/

namespace WitnessReplication.Host

open Replica (Step WeakCommand)

/-- Carries out one planned step. -/
def perform (h : Host) : Step → Host × List Signal
  | .emit effect => h.emit effect
  | .route slot event => h.route slot event

/-- Carries out planned steps in order. -/
def performAll (h : Host) : List Step → Host × List Signal
  | [] => (h, [])
  | step :: steps =>
    let first := h.perform step
    let rest := first.1.performAll steps
    (rest.1, first.2 ++ rest.2)

/-- Whether the command that a weak command depends on has executed. -/
def dependencyMet (h : Host) (w : WeakCommand) : Bool :=
  match w.causalDep with
  | none => true
  | some dep => (h.replica.weakExecuted[w.id.client]?).any fun executed => decide (dep ≤ executed)

/-- Moves the task of a weak command to another stage. -/
def setStage (h : Host) (number : Nat) (w : WeakCommand) (stage : Stage) : Host :=
  { h with weak := h.weak.insert number ⟨w, stage⟩ }

/-- Ends the task of a weak command. -/
def endWeak (h : Host) (number : Nat) : Host × List Signal :=
  ({ h with weak := h.weak.erase number }, [.request (.calm (.weak number))])

/-- The alarm of a wait that has begun afresh. -/
def alarmIf (fresh : Bool) (number : Nat) (deadline : Nat) : List Signal :=
  if fresh then [.request (.alarm (.weak number) deadline)] else []

/-- Waits for the slot to execute, and then answers the client. -/
def awaitExecution (h : Host) (now number : Nat) (w : WeakCommand) (slot : Slot) (deadline : Nat) :
    Host × List Signal :=
  let task := Task.weak number
  let fresh := !h.executions.isSubscribed slot task
  let looked := h.executions.look task slot deadline now (h.replica.isExecuted slot)
  let h := { h with executions := looked.registry }
  match looked.outcome with
  | none =>
    (h.setStage number w (.execute slot deadline),
      wakeAll looked.reached ++ alarmIf fresh number deadline)
  | some .timedOut =>
    let ended := h.endWeak number
    (ended.1, wakeAll looked.reached ++ ended.2)
  | some .notified =>
    let answer : Host × List Signal :=
      match h.replica.values[w.id]? with
      | some value =>
        if h.replica.config.variant.repliesAfterExecute then
          h.emit (h.replica.weakReply w.id value w.causal)
        else (h, [])
      | none => (h, [])
    let ended := answer.1.endWeak number
    (ended.1, wakeAll looked.reached ++ answer.2 ++ ended.2)

/-- Waits for the slot to commit, and then for it to execute. -/
def awaitCommit (h : Host) (now number : Nat) (w : WeakCommand) (slot : Slot) (deadline : Nat) :
    Host × List Signal :=
  let task := Task.weak number
  let fresh := !h.commits.isSubscribed slot task
  let looked := h.commits.look task slot deadline now (h.replica.isCommitted slot)
  let h := { h with commits := looked.registry }
  match looked.outcome with
  | none =>
    (h.setStage number w (.commit slot deadline),
      wakeAll looked.reached ++ alarmIf fresh number deadline)
  | some _ =>
    let next := h.awaitExecution now number w slot (now + h.replica.config.executeWait)
    (next.1, wakeAll looked.reached ++ next.2)

/-- Puts the command in order, and then waits for its slot. -/
def orderNow (h : Host) (now number : Nat) (w : WeakCommand) : Host × List Signal :=
  match h.replica.orderWeak w false with
  | (r, none) => { h with replica := r }.endWeak number
  | (r, some (slot, steps)) =>
    let ordered := { h with replica := r }.performAll steps
    let next := ordered.1.awaitCommit now number w slot (now + h.replica.config.commitWait)
    (next.1, ordered.2 ++ next.2)

/-- Waits for the client's previous weak command, and then puts the command in order. -/
def awaitDependency (h : Host) (now number : Nat) (w : WeakCommand) (deadline : Nat) :
    Host × List Signal :=
  let task := Task.weak number
  let fresh := !h.weakDeps.isSubscribed w.id.client task
  let looked := h.weakDeps.look task w.id.client deadline now (h.dependencyMet w)
  let h := { h with weakDeps := looked.registry }
  match looked.outcome with
  | none =>
    (h.setStage number w (.dependency deadline),
      wakeAll looked.reached ++ alarmIf fresh number deadline)
  | some _ =>
    let next := h.orderNow now number w
    (next.1, wakeAll looked.reached ++ next.2)

/-- One look of the task of a weak command. -/
def lookWeak (h : Host) (now number : Nat) : Host × List Signal :=
  match h.weak[number]? with
  | none => (h, [])
  | some ⟨w, stage⟩ =>
    match stage with
    | .begin =>
      if w.causalDep.isNone then h.orderNow now number w
      else h.awaitDependency now number w (now + h.replica.config.causalWait)
    | .dependency deadline => h.awaitDependency now number w deadline
    | .commit slot deadline => h.awaitCommit now number w slot deadline
    | .execute slot deadline => h.awaitExecution now number w slot deadline

/-- Gives a weak command a task. -/
def spawnWeak (h : Host) (w : WeakCommand) : Host × List Signal :=
  ({ h.setStage h.spawned w .begin with spawned := h.spawned + 1 },
    [.request (.wake (.weak h.spawned))])

end WitnessReplication.Host
