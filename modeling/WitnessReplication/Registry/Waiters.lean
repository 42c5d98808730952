import WitnessReplication.Clock
import WitnessReplication.Registry

/-!
# Waiters on a registry

Tasks that wait, each for a bounded time, until a counter has reached their goal. They look at
the counter when the channel of their key is closed. Receivers may subscribe as well; they only
see that their channel is closed.
-/

namespace WitnessReplication.Registry

/-- Who subscribes to a channel: a waiter or a receiver, by number. -/
inductive Subscriber where
  | waiter (number : Nat)
  | receiver (number : Nat)
  deriving DecidableEq, Repr

/-- A wait under way: its name, the key it subscribes to, its deadline and the count it waits
for. -/
structure Waiter where
  name : Nat
  key : Int
  deadline : Nat
  goal : Int
  deriving DecidableEq, Repr

/-- A wait that has ended: its name, how, and when. -/
structure Ended where
  name : Nat
  outcome : WaitOutcome
  instant : Nat
  deriving DecidableEq, Repr

/-- A registry, a counter, the waits under way and ended, and the receivers, each with whether its
channel is closed. -/
structure Waiters where
  registry : Registry Int Subscriber := .empty
  counter : Int := 0
  waiting : Std.ExtTreeMap Nat Waiter := ∅
  spawned : Nat := 0
  ended : List Ended := []
  closed : List Bool := []

namespace Waiters

/-- What the close of a channel does to its subscribers: waiters are woken, receivers see it. -/
def reach (w : Waiters) (reached : List Subscriber) : Waiters × List (Clock.Request Nat) :=
  ({ w with
      closed := w.closed.mapIdx fun i closed =>
        closed || decide (Subscriber.receiver i ∈ reached) },
    reached.filterMap fun
      | .waiter n => some (.wake n)
      | .receiver _ => none)

/-- One look of a waiter. -/
def look (now : Nat) (number : Nat) (w : Waiters) : Waiters × List (Clock.Request Nat) :=
  match w.waiting[number]? with
  | none => (w, [])
  | some waiter =>
    let subscriber := Subscriber.waiter number
    let fresh := !w.registry.isSubscribed waiter.key subscriber
    let looked := w.registry.look subscriber waiter.key waiter.deadline now
      (decide (waiter.goal ≤ w.counter))
    let reached := { w with registry := looked.registry }.reach looked.reached
    match looked.outcome with
    | none => (reached.1, reached.2 ++ if fresh then [.alarm number waiter.deadline] else [])
    | some outcome =>
      ({ reached.1 with
          waiting := reached.1.waiting.erase number
          ended := reached.1.ended ++ [⟨waiter.name, outcome, now⟩] },
        reached.2 ++ [.calm number])

/-- The waiters as a program. A wait that ends wakes at most all the others. -/
def program : Program Waiters Nat where
  look := look
  effort queued w := queued + (w.waiting.size + 1) * (w.waiting.size + 1)

/-- Waiters before anything has happened. -/
def start : Run Waiters Nat := ⟨{}, {}⟩

/-- Starts a wait of at most `span` for the counter to reach `goal`. -/
def wait (r : Run Waiters Nat) (name : Nat) (key : Int) (span : Nat) (goal : Int) :
    Run Waiters Nat :=
  let w := r.state
  let waiter : Waiter := ⟨name, key, r.now + span, goal⟩
  (r.put ({ w with waiting := w.waiting.insert w.spawned waiter, spawned := w.spawned + 1 },
    [.wake w.spawned])).settle program

/-- Lets a receiver subscribe to a key's channel. -/
def subscribe (r : Run Waiters Nat) (key : Int) : Run Waiters Nat :=
  let w := r.state
  (r.put ({ w with
      registry := w.registry.subscribe key (.receiver w.closed.length)
      closed := w.closed ++ [false] }, [])).settle program

/-- Sets the counter. -/
def set (r : Run Waiters Nat) (count : Int) : Run Waiters Nat :=
  (r.put ({ r.state with counter := count }, [])).settle program

/-- Closes a key's channel. -/
def notify (r : Run Waiters Nat) (key : Int) : Run Waiters Nat :=
  let closed := r.state.registry.close key
  (r.put ({ r.state with registry := closed.1 }.reach closed.2)).settle program

/-- Lets time pass. -/
def advance (r : Run Waiters Nat) (span : Nat) : Run Waiters Nat :=
  r.advance program span

/-- Takes the waits that have ended since the last time. -/
def takeEnded (r : Run Waiters Nat) : Run Waiters Nat × List Ended :=
  (r.put ({ r.state with ended := [] }, []), r.state.ended)

end Waiters

end WitnessReplication.Registry
