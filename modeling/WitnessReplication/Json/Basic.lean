import WitnessReplication.Decimal.Significand

/-!
# JSON values

JSON values as written: numbers keep the shape of their text, and objects keep their members in
order, repeated names and the way they are spelt included, so that a reader of a record can refuse
what it must.

## Implementation notes

A JSON text may spell half of a surrogate pair, which no string can hold. Such a text is kept as
`none`; it is a JSON value, but no value that asks for a string accepts it.
-/

namespace WitnessReplication

/-- A number as written: an integer whose magnitude fits in 64 bits, or a number with a fraction,
an exponent or more digits. A negative zero is an integer of its own. -/
inductive Json.Numeral where
  | integer (negative : Bool) (magnitude : Nat)
  | decimal (negative : Bool) (magnitude : Decimal.Significand)
  deriving DecidableEq, Repr

/-- A JSON string; `none` is one that spells half of a surrogate pair. -/
abbrev Json.Text := Option String

/-- The name of a member of an object, and whether every character of it is spelt as itself. -/
structure Json.Name where
  text : Json.Text
  plain : Bool := true
  deriving DecidableEq, Repr

/-- A JSON value. -/
inductive Json where
  | null
  | bool (value : Bool)
  | number (value : Json.Numeral)
  | text (value : Json.Text)
  | array (items : List Json)
  | object (members : List (Json.Name × Json))
  deriving Repr, Inhabited

namespace Json

/-- The number `n`. -/
def ofNat (n : Nat) : Json :=
  .number (.integer false n)

/-- The number `i`. -/
def ofInt (i : Int) : Json :=
  .number (.integer (decide (i < 0)) i.natAbs)

/-- The string `s`. -/
def ofString (s : String) : Json :=
  .text (some s)

/-- The object with the given members. -/
def ofMembers (members : List (String × Json)) : Json :=
  .object (members.map fun member => (⟨some member.1, true⟩, member.2))

/-- The value of an optional: `null` when there is none. -/
def ofOption {α : Type} (toJson : α → Json) : Option α → Json
  | none => .null
  | some a => toJson a

/-- The array of the given values. -/
def ofList {α : Type} (toJson : α → Json) (items : List α) : Json :=
  .array (items.map toJson)

/-- Whether a number is out of the range of binary numbers with a 53-bit mantissa. -/
def Numeral.overflows : Numeral → Bool
  | .integer _ _ => false
  | .decimal _ magnitude => magnitude.overflows

mutual

/-- Whether a value is free of broken strings and overflowing numbers and nests arrays and
objects at most `depth` deep. -/
def isPlain (depth : Nat) : Json → Bool
  | .null => true
  | .bool _ => true
  | .number value => !value.overflows
  | .text value => value.isSome
  | .array items => decide (0 < depth) && areItemsPlain (depth - 1) items
  | .object members => decide (0 < depth) && areMembersPlain (depth - 1) members

/-- Whether every item is plain. -/
def areItemsPlain (depth : Nat) : List Json → Bool
  | [] => true
  | item :: items => item.isPlain depth && areItemsPlain depth items

/-- Whether every member has a whole name and a plain value. -/
def areMembersPlain (depth : Nat) : List (Name × Json) → Bool
  | [] => true
  | (name, value) :: members =>
    name.text.isSome && value.isPlain depth && areMembersPlain depth members

end

end Json

end WitnessReplication
