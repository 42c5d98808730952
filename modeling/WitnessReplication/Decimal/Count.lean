/-!
# Counts in decimal

A count is written as decimal digits, possibly after a plus sign, and fits in 64 bits.
-/

namespace WitnessReplication.Decimal.Count

/-- The number that decimal digits spell. -/
def ofDigits (digits : List Char) : Nat :=
  digits.foldl (fun n c => 10 * n + (c.toNat - '0'.toNat)) 0

/-- The digits of a written count, without its plus sign. -/
def digitsOf : List Char → List Char
  | '+' :: digits => digits
  | digits => digits

/-- The count that a text spells, if it spells one. -/
def read? (text : String) : Option Nat :=
  let digits := digitsOf text.toList
  let count := ofDigits digits
  if digits ≠ [] ∧ digits.all Char.isDigit ∧ count < UInt64.size then some count else none

end WitnessReplication.Decimal.Count
