/-!
# UTF-8

Text is written as UTF-8 octets and read back leniently: every octet sequence has a reading.
`encode` writes a text. `decode` reads octets one at a time; each maximal run of octets that
begins a character without finishing it, and each octet that begins none, reads as U+FFFD.

## Implementation notes

The reader is a machine whose state is the character under way: how many octets it still owes
and the range the next one must lie in. The ranges rule out overlong forms, surrogates and
code points above U+10FFFF at the earliest octet, which is what makes the runs maximal.
-/

namespace WitnessReplication.Text.Utf8

/-- The octets of a text. -/
def encode (text : String) : List UInt8 :=
  text.toList.flatMap String.utf8EncodeChar

/-- The character that stands for ill-formed octets. -/
def replacement : Char := '\uFFFD'

/-- A character under way: the bits read so far, the octets still owed, and the range of the
next octet. -/
structure Pending where
  code : Nat
  owed : Nat
  low : UInt8
  high : UInt8

/-- What the first octet of a character gives: finished characters and the character it
begins, if any. -/
def start (octet : UInt8) : List Char × Option Pending :=
  if octet < 0x80 then ([Char.ofNat octet.toNat], none)
  else if octet < 0xC2 then ([replacement], none)
  else if octet < 0xE0 then ([], some ⟨octet.toNat % 32, 1, 0x80, 0xBF⟩)
  else if octet = 0xE0 then ([], some ⟨0, 2, 0xA0, 0xBF⟩)
  else if octet = 0xED then ([], some ⟨13, 2, 0x80, 0x9F⟩)
  else if octet < 0xF0 then ([], some ⟨octet.toNat % 16, 2, 0x80, 0xBF⟩)
  else if octet = 0xF0 then ([], some ⟨0, 3, 0x90, 0xBF⟩)
  else if octet < 0xF4 then ([], some ⟨octet.toNat % 8, 3, 0x80, 0xBF⟩)
  else if octet = 0xF4 then ([], some ⟨4, 3, 0x80, 0x8F⟩)
  else ([replacement], none)

/-- One octet: the characters it finishes and the character then under way. An octet outside
the range of the character under way ends that character and starts afresh. -/
def step : Option Pending → UInt8 → List Char × Option Pending
  | none, octet => start octet
  | some pending, octet =>
    if pending.low ≤ octet ∧ octet ≤ pending.high then
      let code := pending.code * 64 + octet.toNat % 64
      if pending.owed ≤ 1 then ([Char.ofNat code], none)
      else ([], some ⟨code, pending.owed - 1, 0x80, 0xBF⟩)
    else
      let fresh := start octet
      (replacement :: fresh.1, fresh.2)

/-- The characters of an octet sequence that continues a character under way. -/
def decodeFrom : Option Pending → List UInt8 → List Char
  | none, [] => []
  | some _, [] => [replacement]
  | pending, octet :: octets =>
    let next := step pending octet
    next.1 ++ decodeFrom next.2 octets

/-- The lenient reading of an octet sequence. -/
def decode (octets : List UInt8) : String :=
  String.ofList (decodeFrom none octets)

end WitnessReplication.Text.Utf8
