import WitnessReplication.Text.Visible

/-!
# Quoted text

A text is shown between double quotes. Quotes and backslashes follow a backslash, as do the
letters and the digit that stand for a tab, the ends of lines and the null character. A character
that would not show as itself is written as its code point in hexadecimal between braces after a
backslash and the letter u.
-/

namespace WitnessReplication.Text.Quoted

/-- A character inside a quoted text. -/
def encodeChar (c : Char) : List Char :=
  if c = '\x00' then ['\\', '0']
  else if c = '\t' then ['\\', 't']
  else if c = '\n' then ['\\', 'n']
  else if c = '\r' then ['\\', 'r']
  else if c = '"' then ['\\', '"']
  else if c = '\\' then ['\\', '\\']
  else if Visible.isVisible c then [c]
  else '\\' :: 'u' :: '\x7b' :: Nat.toDigits 16 c.toNat ++ ['\x7d']

/-- A text between quotes. -/
def encode (text : String) : String :=
  String.ofList ('"' :: text.toList.flatMap encodeChar ++ ['"'])

end WitnessReplication.Text.Quoted
