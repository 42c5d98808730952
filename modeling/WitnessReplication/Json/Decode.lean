import WitnessReplication.Json.Basic

/-!
# Decoding JSON

Readings of a JSON value as a value of some type: bounded integers, strings, sequences, records
and choices. A reading is `none` when the value does not have the form.

A record is an object whose known names occur at most once and whose unknown names are passed
over, or an array of its fields in order. It is written as an object that has every field, in order
(`ofFields`).
-/

namespace WitnessReplication.Json

/-- A natural number below `limit`. -/
def asNat (limit : Nat) : Json → Option Nat
  | .number (.integer false n) => if n < limit then some n else none
  | _ => none

/-- An integer that fits in 64 bits with its sign. -/
def asInt64 : Json → Option Int
  | .number (.integer false n) => if n < UInt64.size / 2 then some (n : Int) else none
  | .number (.integer true n) => if 0 < n ∧ n ≤ UInt64.size / 2 then some (-(n : Int)) else none
  | _ => none

/-- A truth value. -/
def asBool : Json → Option Bool
  | .bool value => some value
  | _ => none

/-- A string. -/
def asString : Json → Option String
  | .text value => value
  | _ => none

/-- An optional value; `null` is its absence. -/
def asOption {α : Type} (decode : Json → Option α) : Json → Option (Option α)
  | .null => some none
  | value => (decode value).map some

/-- A sequence of values. -/
def asList {α : Type} (decode : Json → Option α) : Json → Option (List α)
  | .array items => items.mapM decode
  | _ => none

/-- When a field of a record may be left out: never, only from an object, or also at the end of
an array. -/
inductive Presence where
  | required
  | optional
  | defaulted
  deriving DecidableEq, Repr

/-- A field of a record: its name and when it may be left out. -/
structure Field where
  name : String
  presence : Presence := .required

/-- The object with a value for each field. -/
def ofFields (fields : List Field) (values : List Json) : Json :=
  .ofMembers ((fields.map Field.name).zip values)

/-- The value of one field of an object: `some none` when it is left out and may be. -/
def memberOf (members : List (Name × Json)) (field : Field) : Option (Option Json) :=
  match members.filter fun member => member.1.text = some field.name with
  | [] => if field.presence = .required then none else some none
  | [(_, value)] => some (some value)
  | _ => none

/-- The fields of a record written as an array. -/
def itemsOf : List Field → List Json → Option (List (Option Json))
  | [], [] => some []
  | [], _ :: _ => none
  | field :: fields, [] =>
    if field.presence = .defaulted then (itemsOf fields []).map (none :: ·) else none
  | _ :: fields, item :: items => (itemsOf fields items).map (some item :: ·)

/-- The fields of a record, in order. -/
def fieldsOf (fields : List Field) : Json → Option (List (Option Json))
  | .object members =>
    if members.all fun member => member.1.text.isSome then fields.mapM (memberOf members) else none
  | .array items => itemsOf fields items
  | _ => none

/-- A record whose fields are read by `read`. -/
def asRecord {α : Type} (fields : List Field) (read : List (Option Json) → Option α) (j : Json) :
    Option α :=
  (fieldsOf fields j).bind read

/-- A field read by `decode`, which must be there. -/
def demand {α : Type} (decode : Json → Option α) (field : Option Json) : Option α :=
  field.bind decode

/-- A field read by `decode` that is `fallback` when it is left out. -/
def orElse {α : Type} (fallback : α) (decode : Json → Option α) : Option Json → Option α
  | none => some fallback
  | some value => decode value

/-- An optional field; left out, it is absent. -/
def orNone {α : Type} (decode : Json → Option α) : Option Json → Option (Option α) :=
  orElse none (asOption decode)

/-- A choice among names: the name itself, or an object that gives the name a `null`. -/
def asName {α : Type} (choices : List (String × α)) : Json → Option α
  | .text (some name) => choices.lookup name
  | .object [(name, .null)] => name.text.bind fun name => choices.lookup name
  | _ => none

/-- A tagged value: an object with one member, whose name is the tag. -/
def asTagged : Json → Option (String × Json)
  | .object [(name, body)] => name.text.map fun tag => (tag, body)
  | _ => none

end WitnessReplication.Json
