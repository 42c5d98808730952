import WitnessReplication.Message

/-!
# Witnesses

A witness keeps, per key, a record of the commands that have arrived but not executed.

On the leader an entry holds the slot of the latest command on its key, so that a new command
learns which slot it depends on; a weak write that has no slot yet is staged. On the other
replicas an entry counts the pending commands on its key. A strong command is refused while a
strong write on its key is pending; pending weak writes refuse nothing but are reported.
-/

namespace WitnessReplication

/-- The pending commands on one key. -/
structure Witness.Entry where
  /-- On the leader the slot of the latest command, elsewhere the number of pending ones. -/
  slot : Nat
  /-- Whether the latest command is strong. -/
  isStrong : Bool
  /-- What the latest command does. -/
  op : Op
  /-- The value of the latest command. -/
  value : Value
  /-- The latest command. -/
  id : CommandId
  /-- The number of pending strong writes. -/
  strongWrites : Nat
  /-- The latest pending weak write. -/
  weakWrite : Option (CommandId × Value)
  deriving DecidableEq, Repr

/-- A verdict on a command, with the pending weak write that it may depend on. -/
structure Witness.Verdict where
  ok : Ack
  weakDep : Option CommandId
  deriving DecidableEq, Repr

/-- The pending commands of one replica. -/
structure Witness where
  isLeader : Bool
  unsynced : Std.ExtTreeMap Key Witness.Entry
  /-- The weak writes that have arrived at the leader and have no slot yet. -/
  staged : Std.ExtTreeMap Key (CommandId × Value)

namespace Witness

/-- The verdict where nothing is pending. -/
def Verdict.clear : Verdict := ⟨.clear, none⟩

namespace Entry

/-- Makes a command the latest one and counts it if it writes. -/
def track (e : Entry) (id : CommandId) (c : Command) (strong : Bool) : Entry :=
  { e with
    isStrong := strong
    op := c.op
    value := c.value
    id := id
    strongWrites := if c.isWrite ∧ strong then e.strongWrites + 1 else e.strongWrites
    weakWrite := if c.isWrite ∧ ¬strong then some (id, c.value) else e.weakWrite }

/-- The entry of a key whose only pending command is `c`. -/
def new (slot : Nat) (id : CommandId) (c : Command) (strong : Bool) : Entry :=
  track ⟨slot, strong, c.op, c.value, id, 0, none⟩ id c strong

/-- Takes a command that is no longer pending out of the counts. -/
def untrack (e : Entry) (id : CommandId) (c : Command) (strong : Bool) : Entry :=
  if ¬c.isWrite then e
  else if strong then { e with strongWrites := e.strongWrites - 1 }
  else if e.weakWrite.map Prod.fst = some id then { e with weakWrite := none }
  else e

/-- The verdict on a further command on the key. -/
def verdict (e : Entry) (strong : Bool) : Verdict :=
  if strong then
    ⟨if 0 < e.strongWrites then .refused else .clear, e.weakWrite.map Prod.fst⟩
  else .clear

end Entry

/-- The leader's witness with nothing pending. -/
def leader : Witness := ⟨true, ∅, ∅⟩

/-- The witness of any other replica with nothing pending. -/
def follower : Witness := ⟨false, ∅, ∅⟩

/-- The slot recorded for a key is later than the slot being assigned. -/
inductive AssignError where
  | dependencyAhead
  deriving DecidableEq, Repr

/-- The wording of a failed assignment. -/
def AssignError.message : AssignError → String
  | .dependencyAhead => "[INTERNAL ERROR]: witness dependency slot exceeds assigned slot"

/-- Records a weak write of the leader's that has no slot yet. -/
def stage (w : Witness) (id : CommandId) (c : Command) : Witness :=
  if c.isWrite then { w with staged := w.staged.insert c.key (id, c.value) } else w

/-- Forgets the staged weak write on a key if it is command `id`. -/
def unstage (w : Witness) (id : CommandId) (key : Key) : Witness :=
  match w.staged[key]? with
  | some write => if write.1 = id then { w with staged := w.staged.erase key } else w
  | none => w

/-- Records that the leader gives a command the slot `slot`, and gives the previous pending slot
on its key. If that slot is later than `slot` the key's entry is lost. -/
def assign (w : Witness) (id : CommandId) (c : Command) (strong : Bool) (slot : Slot) :
    Witness × Except AssignError (Option Slot) :=
  let w := if strong then w else w.unstage id c.key
  match w.unsynced[c.key]? with
  | none => ({ w with unsynced := w.unsynced.insert c.key (.new slot id c strong) }, .ok none)
  | some e =>
    if slot < e.slot then ({ w with unsynced := w.unsynced.erase c.key }, .error .dependencyAhead)
    else
      let e' := { e with slot := slot }.track id c strong
      ({ w with unsynced := w.unsynced.insert c.key e' }, .ok (some e.slot))

/-- Drops the leader's entry of a key once the command in `slot` has executed, unless a later
command has taken its place. -/
def release (w : Witness) (slot : Slot) (id : CommandId) (c : Command) (strong : Bool) : Witness :=
  match w.unsynced[c.key]? with
  | none => w
  | some e =>
    if e.slot = slot then { w with unsynced := w.unsynced.erase c.key }
    else { w with unsynced := w.unsynced.insert c.key (e.untrack id c strong) }

/-- Records a pending command at a replica that does not lead, and gives the verdict on it
against the commands that were already pending. -/
def record (w : Witness) (id : CommandId) (c : Command) (strong : Bool) : Witness × Verdict :=
  match w.unsynced[c.key]? with
  | none => ({ w with unsynced := w.unsynced.insert c.key (.new 1 id c strong) }, .clear)
  | some e =>
    let e' := { e with slot := e.slot + 1 }.track id c strong
    ({ w with unsynced := w.unsynced.insert c.key e' }, e.verdict strong)

/-- Retires a pending command of a replica that does not lead. -/
def retire (w : Witness) (id : CommandId) (c : Command) (strong : Bool) : Witness :=
  match w.unsynced[c.key]? with
  | none => w
  | some e =>
    let e' := { e with slot := e.slot - 1 }.untrack id c strong
    if e'.slot = 0 then { w with unsynced := w.unsynced.erase c.key }
    else { w with unsynced := w.unsynced.insert c.key e' }

/-- The verdict on a command that is not recorded. -/
def check (w : Witness) (c : Command) (strong : Bool) : Verdict :=
  (w.unsynced[c.key]?.map fun e => e.verdict strong).getD .clear

/-- The latest pending weak write on a key, a staged one first. -/
def weakWrite (w : Witness) (key : Key) : Option (CommandId × Value) :=
  w.staged[key]?.or (w.unsynced[key]?.bind Entry.weakWrite)

/-- The entry of a key. -/
def entry? (w : Witness) (key : Key) : Option Entry := w.unsynced[key]?

/-- The number of keys with an entry. -/
def size (w : Witness) : Nat := w.unsynced.size

/-- Whether no key has an entry. -/
def isEmpty (w : Witness) : Bool := w.size = 0

end Witness

/-- A counter of slots that wraps around after the last 64-bit number. -/
structure SlotCounter where
  next : Slot
  deriving DecidableEq, Repr

namespace SlotCounter

/-- The slot that the counter gives next. -/
def advance (c : SlotCounter) : SlotCounter := ⟨(c.next + 1) % UInt64.size⟩

end SlotCounter

end WitnessReplication
