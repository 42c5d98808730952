import WitnessReplication.Host.Basic

/-!
# Slots served by tasks

An event goes to the mailbox of its slot's task, or is handled on the spot where the slot has no
task. A slot's task handles all that is in its mailbox, ends when its slot executes, and hands
the wake-up on to the next slot if that one waits.
-/

namespace WitnessReplication.Host

open Replica (Event LiveSlot)

/-- Adds an event to a mailbox and wakes the task that reads it. -/
def enqueue (h : Host) (slot : Slot) (queue : List Event) (event : Event) : Host × List Signal :=
  ({ h with mailboxes := h.mailboxes.insert slot (queue ++ [event]) },
    [.request (.wake (.slot slot))])

/-- Wakes a slot whose predecessor has executed, and every slot without a task that becomes
executable in turn. -/
def wake (h : Host) (slot : Slot) : Host × List Signal :=
  match _ : h.replica.live[slot]? with
  | none => (h, [])
  | some s =>
    match h.mailboxes[slot]? with
    | some queue => h.enqueue slot queue .wake
    | none =>
      match _ : h.replica.process slot s .wake with
      | (r, effects, .executed true) =>
        let adopted := h.adopt r effects
        let rest := adopted.1.wake (slot + 1)
        (rest.1, adopted.2 ++ rest.2)
      | (r, effects, .executed false) => h.adopt r effects
      | (r, effects, .pending) => h.adopt r effects
termination_by h.replica.live.size
decreasing_by
  rw [replica_adopt]
  exact Replica.size_live_process_wake (by assumption) (by assumption)

/-- Hands an event to its slot. -/
def route (h : Host) (slot : Slot) (event : Event) : Host × List Signal :=
  match h.replica.claim slot event with
  | none => (h, [])
  | some (r, s, opened) =>
    let claimed := h.adopt r opened
    match claimed.1.mailboxes[slot]? with
    | some queue =>
      let queued := claimed.1.enqueue slot queue event
      (queued.1, claimed.2 ++ queued.2)
    | none =>
      let processed := claimed.1.replica.process slot s event
      let adopted := claimed.1.adopt processed.1 processed.2.1
      match processed.2.2 with
      | .executed true =>
        let woken := adopted.1.wake (slot + 1)
        (woken.1, claimed.2 ++ adopted.2 ++ woken.2)
      | _ => (adopted.1, claimed.2 ++ adopted.2)

/-- Lets the task of a slot handle events until its slot executes, which ends the task. -/
def serve (h : Host) (slot : Slot) : List Event → Host × List Signal
  | [] => (h, [])
  | event :: events =>
    match h.replica.live[slot]? with
    | none => (h, [])
    | some s =>
      let processed := h.replica.process slot s event
      let adopted := h.adopt processed.1 processed.2.1
      match processed.2.2 with
      | .pending =>
        let rest := adopted.1.serve slot events
        (rest.1, adopted.2 ++ rest.2)
      | .executed awaited =>
        let woken := if awaited then adopted.1.wake (slot + 1) else (adopted.1, [])
        ({ woken.1 with mailboxes := woken.1.mailboxes.erase slot }, adopted.2 ++ woken.2)

/-- One look of the task of a slot. -/
def lookSlot (h : Host) (slot : Slot) : Host × List Signal :=
  match h.mailboxes[slot]? with
  | none => (h, [])
  | some queue => { h with mailboxes := h.mailboxes.insert slot [] }.serve slot queue

end WitnessReplication.Host
