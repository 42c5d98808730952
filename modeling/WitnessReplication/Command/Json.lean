import WitnessReplication.Command
import WitnessReplication.Config
import WitnessReplication.Json.Decode

/-!
# Commands as JSON

How commands, their ids and values, protocol variants and quorum rules are written as JSON and
read back. Client ids and epochs have 32 bits, keys 64 bits with a sign, and all other numbers 64
bits without one; a value is the array of its bytes. The members of a record are written in the
order of its fields.
-/

namespace WitnessReplication

open Json (asInt64 asList asName asNat asRecord demand)

/-- An 8-bit number. -/
def Json.asByte (j : Json) : Option UInt8 := (asNat UInt8.size j).map UInt8.ofNat

/-- A 32-bit number. -/
def Json.asNat32 : Json → Option Nat := asNat UInt32.size

/-- A 64-bit number. -/
def Json.asNat64 : Json → Option Nat := asNat UInt64.size

namespace Value

/-- A value is written as the array of its bytes. -/
def toJson (v : Value) : Json := .ofList (fun b => .ofNat b.toNat) v.bytes

/-- Reads a value. -/
def ofJson? (j : Json) : Option Value := (asList Json.asByte j).map Value.mk

end Value

namespace Op

/-- An operation is written by its name. -/
def toJson (op : Op) : Json := .ofString op.name

/-- Reads an operation. -/
def ofJson? : Json → Option Op :=
  asName ([Op.get, .put, .scan, .none].map fun op => (op.name, op))

end Op

namespace Command

/-- The fields of a command. -/
def fields : List Json.Field := [⟨"op", .required⟩, ⟨"key", .required⟩, ⟨"value", .required⟩]

/-- A command is written as a record of its parts. -/
def toJson (c : Command) : Json :=
  .ofFields fields [c.op.toJson, .ofInt c.key, c.value.toJson]

/-- Reads a command. -/
def ofJson? : Json → Option Command :=
  asRecord fields fun
    | [op, key, value] => do
      return ⟨← demand Op.ofJson? op, ← demand asInt64 key, ← demand Value.ofJson? value⟩
    | _ => .none

end Command

namespace CommandId

/-- The fields of a command id. -/
def fields : List Json.Field := [⟨"client_id", .required⟩, ⟨"seq_num", .required⟩]

/-- A command id is written as a record of its parts. -/
def toJson (id : CommandId) : Json :=
  .ofFields fields [.ofNat id.client, .ofNat id.seq]

/-- Reads a command id. -/
def ofJson? : Json → Option CommandId :=
  asRecord fields fun
    | [client, seq] => do
      return ⟨← demand Json.asNat32 client, ← demand Json.asNat64 seq⟩
    | _ => none

end CommandId

namespace Variant

/-- A variant is written by its short name. -/
def toJson (v : Variant) : Json := .ofString v.name

/-- Reads a variant. -/
def ofJson? : Json → Option Variant :=
  asName ([Variant.leaderOnly, .everyReplica].map fun v => (v.name, v))

end Variant

namespace Quorum.Threshold

/-- The name of a quorum rule. -/
def name : Threshold → String
  | .majority => "majority"
  | .threeQuarters => "three_quarters"

/-- A quorum rule is written by its name. -/
def toJson (t : Threshold) : Json := .ofString t.name

/-- Reads a quorum rule. -/
def ofJson? : Json → Option Threshold :=
  asName ([Threshold.majority, .threeQuarters].map fun t => (t.name, t))

end Quorum.Threshold

end WitnessReplication
