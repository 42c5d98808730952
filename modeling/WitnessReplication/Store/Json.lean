import WitnessReplication.Command.Json
import WitnessReplication.Store

/-!
# Stores as JSON

A store is written as a record of its data and of the number of commands applied to it. The data
is an object whose names are the keys in decimal, spelt without escapes; reading it, a later value
of a key replaces an earlier one.
-/

namespace WitnessReplication.Store

open Json (asRecord demand)

/-- The fields of a store. -/
def fields : List Json.Field := [⟨"data", .required⟩, ⟨"applied", .required⟩]

/-- A store is written as a record. -/
def toJson (s : Store) : Json :=
  .ofFields fields
    [.ofMembers (s.data.toList.map fun entry => (toString entry.1, entry.2.toJson)),
      .ofNat s.applied]

/-- Reads a key written in decimal: digits without a leading zero, after a minus sign if it is
negative. -/
def keyOf? (name : String) : Option Key :=
  let negative := name.toList.head? = some '-'
  let digits := if negative then name.toList.drop 1 else name.toList
  let magnitude := Decimal.Count.ofDigits digits
  if digits = [] ∨ ¬digits.all Char.isDigit ∨ (digits.head? = some '0' ∧ 1 < digits.length) then
    none
  else if negative then
    if 0 < magnitude ∧ magnitude ≤ UInt64.size / 2 then some (-(magnitude : Int)) else none
  else if magnitude < UInt64.size / 2 then some (magnitude : Int)
  else none

/-- Reads one entry of the data. -/
def entryOf? (member : Json.Name × Json) : Option (Key × Value) := do
  return (← keyOf? (← member.1.text.filter fun _ => member.1.plain), ← Value.ofJson? member.2)

/-- Reads the data. -/
def dataOf? : Json → Option (Std.ExtTreeMap Key Value)
  | .object members =>
    (members.mapM entryOf?).map fun entries =>
      entries.foldl (fun data entry => data.insert entry.1 entry.2) ∅
  | _ => none

/-- Reads a store. -/
def ofJson? : Json → Option Store :=
  asRecord fields fun
    | [data, applied] => do
      return ⟨← demand dataOf? data, ← demand Json.asNat64 applied⟩
    | _ => none

end WitnessReplication.Store
