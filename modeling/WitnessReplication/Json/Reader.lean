import WitnessReplication.Json.Basic
import WitnessReplication.Decimal.Count

/-!
# Reading JSON

`Json.read?` reads a text that holds one JSON value between blanks and nothing else. Each reader
below takes the characters ahead and gives what it read together with the characters that follow.

## Implementation notes

The readers of values, items and members call each other; a bound on the number of calls, twice
the length of the text, makes them total. A call either takes a character or is followed by one
that does, so the bound is never met.
-/

namespace WitnessReplication.Json

open WitnessReplication.Decimal

/-- The blanks that may stand between tokens. -/
def isSpace (c : Char) : Bool :=
  c == ' ' || c == '\t' || c == '\n' || c == '\r'

/-- The characters from the first that is no blank. -/
def skipSpace (cs : List Char) : List Char :=
  cs.dropWhile isSpace

/-- The value of a hexadecimal digit. -/
def hexValue? (c : Char) : Option Nat :=
  if c.isDigit then some (c.toNat - '0'.toNat)
  else if 'a' ≤ c ∧ c ≤ 'f' then some (c.toNat - 'a'.toNat + 10)
  else if 'A' ≤ c ∧ c ≤ 'F' then some (c.toNat - 'A'.toNat + 10)
  else none

/-- The number that four hexadecimal digits spell. -/
def hexUnit? (a b c d : Char) : Option Nat := do
  let a ← hexValue? a
  let b ← hexValue? b
  let c ← hexValue? c
  let d ← hexValue? d
  return ((a * 16 + b) * 16 + c) * 16 + d

/-- The character of a short escape. -/
def shortEscape? : Char → Option Char
  | '"' => some '"'
  | '\\' => some '\\'
  | '/' => some '/'
  | 'b' => some '\x08'
  | 'f' => some '\x0c'
  | 'n' => some '\n'
  | 'r' => some '\r'
  | 't' => some '\t'
  | _ => none

/-- Whether a 16-bit unit is the first half of a surrogate pair. -/
def isHigh (unit : Nat) : Bool :=
  0xD800 ≤ unit && unit < 0xDC00

/-- Whether a 16-bit unit is the second half of a surrogate pair. -/
def isLow (unit : Nat) : Bool :=
  0xDC00 ≤ unit && unit < 0xE000

/-- The character of a surrogate pair. -/
def pairChar (high low : Nat) : Char :=
  Char.ofNat (0x10000 + (high - 0xD800) * 0x400 + (low - 0xDC00))

/-- Puts a character in front of a string that was read; without a character the string is
broken, and no character mends a broken one. -/
def consChar (c : Option Char) (read : Option (List Char) × List Char) :
    Option (List Char) × List Char :=
  (match c, read.1 with
    | some c, some cs => some (c :: cs)
    | _, _ => none, read.2)

/-- Reads a string after its opening quote, up to and with its closing quote. The first argument
is the first half of a surrogate pair when one was just read; whatever follows it must be its
second half. -/
def readString : Option Nat → List Char → Option (Option (List Char) × List Char)
  | _, [] => none
  | high, '"' :: rest => some (if high.isNone then some [] else none, rest)
  | high, '\\' :: 'u' :: a :: b :: c :: d :: rest =>
    match hexUnit? a b c d with
    | none => none
    | some unit =>
      if isHigh unit then
        (readString (some unit) rest).map fun read =>
          if high.isNone then read else consChar none read
      else if isLow unit then
        (readString none rest).map (consChar (high.map fun high => pairChar high unit))
      else
        (readString none rest).map (consChar (if high.isNone then some (Char.ofNat unit) else none))
  | high, '\\' :: c :: rest =>
    match shortEscape? c with
    | none => none
    | some c => (readString none rest).map (consChar (if high.isNone then some c else none))
  | high, c :: rest =>
    if c.toNat < 0x20 then none
    else (readString none rest).map (consChar (if high.isNone then some c else none))

/-- Reads a string from its opening quote. -/
def readText : List Char → Option (Text × List Char)
  | '"' :: rest => (readString none rest).map fun read => (read.1.map String.ofList, read.2)
  | _ => none

/-- Reads a member's name from its opening quote. It is spelt plainly if there is no backslash up to
the next quote, which then is the closing one. -/
def readName : List Char → Option (Name × List Char)
  | '"' :: rest =>
    (readString none rest).map fun read =>
      (⟨read.1.map String.ofList, !(rest.takeWhile (· ≠ '"')).contains '\\'⟩, read.2)
  | _ => none

/-- Reads a nonempty run of digits. -/
def readDigits (cs : List Char) : Option (List Char × List Char) :=
  let digits := cs.takeWhile Char.isDigit
  if digits = [] then none else some (digits, cs.dropWhile Char.isDigit)

/-- Reads a sign if there is one; a plus sign only where it may stand. -/
def readSign (plus : Bool) : List Char → Bool × List Char
  | '-' :: rest => (true, rest)
  | '+' :: rest => if plus then (false, rest) else (false, '+' :: rest)
  | cs => (false, cs)

/-- Reads a fraction if there is one: its digits, none when it is absent. -/
def readFraction : List Char → Option (List Char × List Char)
  | '.' :: rest => readDigits rest
  | cs => some ([], cs)

/-- Reads an exponent after its mark. -/
def readPower (cs : List Char) : Option (Option Int × List Char) :=
  let sign := readSign true cs
  (readDigits sign.2).map fun read =>
    let size : Int := Count.ofDigits read.1
    (some (if sign.1 then -size else size), read.2)

/-- Reads an exponent if there is one. -/
def readExponent : List Char → Option (Option Int × List Char)
  | 'e' :: rest => readPower rest
  | 'E' :: rest => readPower rest
  | cs => some (none, cs)

/-- The number with the given digits and exponent. -/
def numeralOf (negative : Bool) (whole fraction : List Char) (exponent : Option Int) : Numeral :=
  let magnitude := Count.ofDigits whole
  if fraction = [] ∧ exponent = none ∧ magnitude < UInt64.size then .integer negative magnitude
  else .decimal negative (Significand.ofDigits whole fraction (exponent.getD 0))

/-- Reads a number. Only the number zero begins with a zero digit. -/
def readNumeral (cs : List Char) : Option (Numeral × List Char) :=
  let sign := readSign false cs
  match readDigits sign.2 with
  | none => none
  | some (whole, rest) =>
    if whole.head? = some '0' ∧ 1 < whole.length then none
    else
      match readFraction rest with
      | none => none
      | some (fraction, rest) =>
        match readExponent rest with
        | none => none
        | some (exponent, rest) => some (numeralOf sign.1 whole fraction exponent, rest)

mutual

/-- Reads a value, blanks in front of it included. -/
def readValue : Nat → List Char → Option (Json × List Char)
  | 0, _ => none
  | bound + 1, cs =>
    match skipSpace cs with
    | 'n' :: 'u' :: 'l' :: 'l' :: rest => some (.null, rest)
    | 't' :: 'r' :: 'u' :: 'e' :: rest => some (.bool true, rest)
    | 'f' :: 'a' :: 'l' :: 's' :: 'e' :: rest => some (.bool false, rest)
    | '"' :: rest => (readText ('"' :: rest)).map fun read => (.text read.1, read.2)
    | '[' :: rest =>
      match skipSpace rest with
      | ']' :: rest => some (.array [], rest)
      | rest => (readItems bound rest).map fun read => (.array read.1, read.2)
    | '\x7b' :: rest =>
      match skipSpace rest with
      | '\x7d' :: rest => some (.object [], rest)
      | rest => (readMembers bound rest).map fun read => (.object read.1, read.2)
    | rest => (readNumeral rest).map fun read => (.number read.1, read.2)

/-- Reads items up to and with the closing bracket. -/
def readItems : Nat → List Char → Option (List Json × List Char)
  | 0, _ => none
  | bound + 1, cs =>
    match readValue bound cs with
    | none => none
    | some (item, rest) =>
      match skipSpace rest with
      | ']' :: rest => some ([item], rest)
      | ',' :: rest => (readItems bound rest).map fun read => (item :: read.1, read.2)
      | _ => none

/-- Reads members up to and with the closing brace. -/
def readMembers : Nat → List Char → Option (List (Name × Json) × List Char)
  | 0, _ => none
  | bound + 1, cs =>
    match readName (skipSpace cs) with
    | none => none
    | some (name, rest) =>
      match skipSpace rest with
      | ':' :: rest =>
        match readValue bound rest with
        | none => none
        | some (value, rest) =>
          match skipSpace rest with
          | '\x7d' :: rest => some ([(name, value)], rest)
          | ',' :: rest =>
            (readMembers bound rest).map fun read => ((name, value) :: read.1, read.2)
          | _ => none
      | _ => none

end

/-- The value that a text holds. -/
def readChars? (cs : List Char) : Option Json :=
  match readValue (2 * cs.length + 2) cs with
  | some (value, rest) => if skipSpace rest = [] then some value else none
  | none => none

/-- The value that a text holds. -/
def read? (text : String) : Option Json :=
  readChars? text.toList

end WitnessReplication.Json
