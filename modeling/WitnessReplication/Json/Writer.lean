import WitnessReplication.Json.Basic

/-!
# Writing JSON

`Json.write` gives the compact text of a value: no blanks, members in their order. The escapes of
a string are `\"`, `\\`, the five short escapes of control characters, and `\u00xx` for the other
control characters; every other character stands for itself.

`Json.sortMembers` orders the members of every object by name, for a text that does not depend on
the order in which an object was built.
-/

namespace WitnessReplication.Json

/-- A digit of a lower-case hexadecimal number. -/
def hexDigit (n : Nat) : Char :=
  Nat.digitChar (n % 16)

/-- A character inside a written string. -/
def writeChar (c : Char) : List Char :=
  if c = '"' then ['\\', '"']
  else if c = '\\' then ['\\', '\\']
  else if c = '\x08' then ['\\', 'b']
  else if c = '\x09' then ['\\', 't']
  else if c = '\x0a' then ['\\', 'n']
  else if c = '\x0c' then ['\\', 'f']
  else if c = '\x0d' then ['\\', 'r']
  else if c.toNat < 0x20 then ['\\', 'u', '0', '0', hexDigit (c.toNat / 16), hexDigit c.toNat]
  else [c]

/-- A written string; a broken one is written as one half of a surrogate pair. -/
def writeText : Text → List Char
  | some s => '"' :: s.toList.flatMap writeChar ++ ['"']
  | none => ['"', '\\', 'u', 'd', '8', '0', '0', '"']

/-- The decimal digits of a number. -/
def writeNat (n : Nat) : List Char :=
  Nat.toDigits 10 n

/-- A sign in front of a negative number. -/
def writeSign (negative : Bool) : List Char :=
  if negative then ['-'] else []

/-- A written number. -/
def writeNumeral : Numeral → List Char
  | .integer negative magnitude => writeSign negative ++ writeNat magnitude
  | .decimal negative magnitude =>
    writeSign negative ++ writeNat magnitude.digits ++
      'e' :: writeSign (decide (magnitude.exponent < 0)) ++ writeNat magnitude.exponent.natAbs

mutual

/-- The characters of a written value. -/
def writeChars : Json → List Char
  | .null => ['n', 'u', 'l', 'l']
  | .bool true => ['t', 'r', 'u', 'e']
  | .bool false => ['f', 'a', 'l', 's', 'e']
  | .number value => writeNumeral value
  | .text value => writeText value
  | .array items => '[' :: writeItems items
  | .object members => '\x7b' :: writeMembers members

/-- Written items, each but the last followed by a comma, and the closing bracket. -/
def writeItems : List Json → List Char
  | [] => [']']
  | [item] => writeChars item ++ [']']
  | item :: items => writeChars item ++ ',' :: writeItems items

/-- Written members, each but the last followed by a comma, and the closing brace. -/
def writeMembers : List (Name × Json) → List Char
  | [] => ['\x7d']
  | [(name, value)] => writeText name.text ++ ':' :: writeChars value ++ ['\x7d']
  | (name, value) :: members =>
    writeText name.text ++ ':' :: writeChars value ++ ',' :: writeMembers members

end

/-- The compact text of a value. -/
def write (value : Json) : String :=
  String.ofList value.writeChars

/-- Whether a member's name comes no later than another's, by code points. -/
def namesOrdered (a b : Name × Json) : Bool :=
  match a.1.text, b.1.text with
  | some s, some t => decide (s ≤ t)
  | some _, none => false
  | none, _ => true

mutual

/-- The value with the members of every object ordered by name. -/
def sortMembers : Json → Json
  | .array items => .array (sortItems items)
  | .object members => .object ((sortEach members).mergeSort namesOrdered)
  | value => value

/-- The items, each with its members ordered. -/
def sortItems : List Json → List Json
  | [] => []
  | item :: items => item.sortMembers :: sortItems items

/-- The members in their own order, each value with its members ordered. -/
def sortEach : List (Name × Json) → List (Name × Json)
  | [] => []
  | (name, value) :: members => (name, value.sortMembers) :: sortEach members

end

/-- Whether the compact text of a value, with all members ordered by name, comes no later than
that of another, by code points. -/
def textOrdered (a b : Json) : Bool :=
  decide (a.sortMembers.write ≤ b.sortMembers.write)

/-- Values ordered by their compact texts. -/
def sortByText (values : List Json) : List Json :=
  values.mergeSort textOrdered

end WitnessReplication.Json
