import WitnessReplication.Batcher
import WitnessReplication.Clock

/-!
# A batcher on a clock

The task that flushes a batcher. It looks at the queues when it starts, when a message is queued
while it is idle, and when the delay of a batch ends.
-/

namespace WitnessReplication.Batcher

/-- A batcher and the batches it has sent. -/
structure Flushing where
  batcher : Batcher
  sent : List Batch := []

namespace Flushing

/-- One look of the flushing task. -/
def look (now : Nat) (task : Unit) (f : Flushing) : Flushing × List (Clock.Request Unit) :=
  let looked := f.batcher.look now
  (⟨looked.batcher, f.sent ++ looked.sent.toList⟩,
    looked.alarm.toList.map fun instant => .alarm task instant)

/-- The flushing task as a program; nothing that it does wakes it. -/
def program : Program Flushing Unit where
  look := look
  effort queued _ := queued

/-- A batcher whose task has not run yet. -/
def start (delay : Option Nat) : Run Flushing Unit :=
  ⟨{ ready := [()] }, { batcher := { delay } }⟩

/-- The wake-up that goes with queueing a message. -/
def notice (b : Batcher) : List (Clock.Request Unit) :=
  if b.isIdle then [.wake ()] else []

/-- Queues an accept; the task does not run. -/
def accept (r : Run Flushing Unit) (a : Accept) : Run Flushing Unit :=
  r.put ({ r.state with batcher := r.state.batcher.queueAccept a }, notice r.state.batcher)

/-- Queues an acknowledgement; the task does not run. -/
def ack (r : Run Flushing Unit) (a : AcceptAck) : Run Flushing Unit :=
  r.put ({ r.state with batcher := r.state.batcher.queueAck a }, notice r.state.batcher)

/-- Lets the task run. -/
def settle (r : Run Flushing Unit) : Run Flushing Unit := r.settle program

/-- Lets time pass. -/
def advance (r : Run Flushing Unit) (span : Nat) : Run Flushing Unit := r.advance program span

/-- Takes the batches sent since the last time. -/
def takeSent (r : Run Flushing Unit) : Run Flushing Unit × List Batch :=
  (r.put ({ r.state with sent := [] }, []), r.state.sent)

end Flushing

end WitnessReplication.Batcher
