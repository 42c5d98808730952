import WitnessReplication.Identity
import WitnessReplication.Text.Utf8

/-!
# Commands and values

A command is an operation on the replicated store. Its key is what conflicts are judged by; its
value is what a write stores, and for a scan the number of keys to read, in decimal.
-/

namespace WitnessReplication

/-- An opaque value of the store; the empty one is NIL. -/
structure Value where
  bytes : List UInt8
  deriving DecidableEq, Repr

namespace Value

/-- The empty value. -/
def nil : Value := ⟨[]⟩

instance : Inhabited Value := ⟨nil⟩

/-- Whether a value is NIL. -/
def isNil (v : Value) : Bool := v.bytes.isEmpty

/-- The value that holds a text. -/
def ofText (text : String) : Value := ⟨Text.Utf8.encode text⟩

/-- A value read as text. -/
def text (v : Value) : String := Text.Utf8.decode v.bytes

/-- How a value is shown. -/
def display (v : Value) : String := if v.isNil then "NIL" else v.text

/-- The text of a value as a record. -/
def describe (v : Value) : String :=
  Text.Record.wrapped "Value" (Text.Record.sequence (v.bytes.map fun b => toString b.toNat))

end Value

/-- What a command does. -/
inductive Op where
  | get
  | put
  | scan
  | none
  deriving DecidableEq, Repr, Inhabited

/-- The name of an operation. -/
def Op.name : Op → String
  | .get => "Get"
  | .put => "Put"
  | .scan => "Scan"
  | .none => "None"

/-- An operation on the replicated store. -/
structure Command where
  op : Op
  key : Key
  value : Value
  deriving DecidableEq, Repr, Inhabited

namespace Command

/-- Reads the value of a key. -/
def get (key : Key) : Command := ⟨.get, key, .nil⟩

/-- Stores a text at a key. -/
def put (key : Key) (text : String) : Command := ⟨.put, key, .ofText text⟩

/-- Reads `count` stored keys from `key` on. -/
def scan (key : Key) (count : Nat) : Command := ⟨.scan, key, .ofText (toString count)⟩

/-- Does nothing. -/
def none : Command := ⟨.none, 0, .nil⟩

/-- Whether a command writes. -/
def isWrite (c : Command) : Bool := c.op = .put

/-- The text of a command. -/
def describe (c : Command) : String :=
  Text.Record.record "Command"
    [("op", c.op.name), ("key", toString c.key), ("value", c.value.describe)]

end Command

end WitnessReplication
