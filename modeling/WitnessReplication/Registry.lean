import Std.Data.ExtTreeMap

/-!
# Notification channels

A registry keeps at most one open channel per key. A channel is opened by its first subscriber
and notifies by being closed, which reaches every subscriber it has then.

A waiter looks at its goal when it starts and after every close of its key's channel, and for the
last time at its deadline. `Registry.look` is one look.
-/

namespace WitnessReplication

/-- How a bounded wait ended. -/
inductive WaitOutcome where
  | notified
  | timedOut
  deriving DecidableEq, Repr

/-- The open channels, each with its subscribers in the order in which they subscribed. -/
structure Registry (κ τ : Type) [Ord κ] where
  channels : Std.ExtTreeMap κ (List τ)

namespace Registry

variable {κ τ : Type} [Ord κ] [Std.TransOrd κ] [DecidableEq τ]

/-- The registry without channels. -/
def empty : Registry κ τ := ⟨∅⟩

/-- The subscribers of a key's channel; a channel that is not open has none. -/
def subscribers (r : Registry κ τ) (key : κ) : List τ := (r.channels[key]?).getD []

/-- Whether a subscriber waits on a key's channel. -/
def isSubscribed (r : Registry κ τ) (key : κ) (t : τ) : Bool := decide (t ∈ r.subscribers key)

/-- Subscribes to the next close of a key's channel, opening it if need be. -/
def subscribe (r : Registry κ τ) (key : κ) (t : τ) : Registry κ τ :=
  ⟨r.channels.insert key (r.subscribers key ++ [t])⟩

/-- Takes a subscriber back; its channel stays open. -/
def unsubscribe (r : Registry κ τ) (key : κ) (t : τ) : Registry κ τ :=
  ⟨r.channels.alter key fun channel => channel.map fun ts => ts.filter fun s => s ≠ t⟩

/-- Closes a key's channel, and gives the subscribers that this reaches. -/
def close (r : Registry κ τ) (key : κ) : Registry κ τ × List τ :=
  (⟨r.channels.erase key⟩, r.subscribers key)

/-- The number of open channels. -/
def size (r : Registry κ τ) : Nat := r.channels.size

/-- What a look of a waiter does: it may reach other subscribers, and it may end the wait. -/
structure Look (κ τ : Type) [Ord κ] where
  registry : Registry κ τ
  reached : List τ := []
  outcome : Option WaitOutcome := none

/-- One look of the waiter `t` at an instant. While its channel is open it waits for the deadline,
at which it looks at its goal for the last time. Once its channel has been closed, and when it
starts, it subscribes afresh and looks at its goal; a goal that holds closes the channel. -/
def look (r : Registry κ τ) (t : τ) (key : κ) (deadline now : Nat) (goal : Bool) : Look κ τ :=
  if r.isSubscribed key t then
    if deadline ≤ now then
      { registry := r.unsubscribe key t, outcome := some (if goal then .notified else .timedOut) }
    else { registry := r }
  else if goal then
    let closed := r.close key
    { registry := closed.1, reached := closed.2, outcome := some .notified }
  else if deadline ≤ now then
    { registry := (r.subscribe key t).unsubscribe key t, outcome := some .timedOut }
  else { registry := r.subscribe key t }

omit [DecidableEq τ] in
@[simp] theorem subscribers_empty (key : κ) : (empty : Registry κ τ).subscribers key = [] := by
  simp [subscribers, empty]

omit [DecidableEq τ] in
/-- Subscribing adds to one channel and leaves the others as they are. -/
theorem subscribers_subscribe (r : Registry κ τ) (key key' : κ) (t : τ) :
    (r.subscribe key t).subscribers key' =
      if compare key key' = .eq then r.subscribers key ++ [t] else r.subscribers key' := by
  simp only [subscribers, subscribe, Std.ExtTreeMap.getElem?_insert]
  split <;> rfl

omit [DecidableEq τ] in
/-- A closed channel has no subscribers, and the others keep theirs. -/
theorem subscribers_close (r : Registry κ τ) (key key' : κ) :
    (r.close key).1.subscribers key' =
      if compare key key' = .eq then [] else r.subscribers key' := by
  simp only [subscribers, close, Std.ExtTreeMap.getElem?_erase]
  split <;> rfl

end Registry

end WitnessReplication
