import WitnessReplication.Clock
import WitnessReplication.Decimal.Quotient
import WitnessReplication.Message

/-!
# Batching

A batcher queues accepts and acknowledgements and sends all that is queued as one batch. It may
hold a batch back for a while after the first message, so that it grows.
-/

namespace WitnessReplication

namespace Batcher

/-- The batches sent: how many, the least and the greatest number of messages in one, and the
numbers of messages, accepts and acknowledgements in all. -/
structure Stats where
  batches : Nat := 0
  min : Nat := 0
  max : Nat := 0
  total : Nat := 0
  accepts : Nat := 0
  acks : Nat := 0
  deriving DecidableEq, Repr, Inhabited

/-- Counts a batch. -/
def Stats.record (s : Stats) (b : Batch) : Stats where
  batches := s.batches + 1
  min := if s.batches = 0 then b.size else Nat.min s.min b.size
  max := Nat.max s.max b.size
  total := s.total + b.size
  accepts := s.accepts + b.accepts.length
  acks := s.acks + b.acks.length

/-- The average number of messages in a batch, with `places` decimal places. -/
def Stats.average (s : Stats) (places : Nat) : String :=
  Decimal.Quotient.fixed places s.total s.batches

end Batcher

/-- The queued messages, how long a batch is held back, until when one is being held back, and
the batches sent so far. -/
structure Batcher where
  delay : Option Nat
  accepts : List Accept := []
  acks : List AcceptAck := []
  heldUntil : Option Nat := none
  stats : Batcher.Stats := {}
  deriving DecidableEq, Repr

namespace Batcher

/-- Queues an accept. -/
def queueAccept (b : Batcher) (a : Accept) : Batcher := { b with accepts := b.accepts ++ [a] }

/-- Queues an acknowledgement. -/
def queueAck (b : Batcher) (a : AcceptAck) : Batcher := { b with acks := b.acks ++ [a] }

/-- Whether a queued message is noticed at once: no batch is being held back. -/
def isIdle (b : Batcher) : Bool := b.heldUntil.isNone

/-- All queued messages as one batch. -/
def queued (b : Batcher) : Batch := ⟨b.accepts, b.acks⟩

/-- Sends all queued messages as one batch. -/
def send (b : Batcher) : Batcher × Batch :=
  ({ b with accepts := [], acks := [], heldUntil := none, stats := b.stats.record b.queued },
    b.queued)

/-- What a look at the queues does: a batch that is sent, or an instant until which one is held
back. -/
structure Look where
  batcher : Batcher
  sent : Option Batch := none
  alarm : Option Nat := none

/-- One look at the queues. Messages are sent at once, or at the end of the delay that begins with
the first look at them, as far as the clock measures it. -/
def look (b : Batcher) (now : Nat) : Look :=
  let sent : Look := { batcher := b.send.1, sent := some b.send.2 }
  if b.queued.isEmpty then { batcher := b }
  else
    match b.heldUntil with
    | some instant => if instant ≤ now then sent else { batcher := b }
    | none =>
      if b.delay.getD 0 = 0 then sent
      else
        let instant := now + Clock.measured (b.delay.getD 0)
        { batcher := { b with heldUntil := some instant }, alarm := some instant }

end Batcher

end WitnessReplication
