/-!
# Lines of a text

A line ends at a line feed, or where the text ends. A carriage return belongs to the end of its
line only right before a line feed. Nothing after the last line feed is no line.
-/

namespace WitnessReplication.Text.Lines

/-- The lines of a list of characters. -/
def ofChars : List Char → List (List Char)
  | [] => []
  | '\n' :: cs => [] :: ofChars cs
  | '\r' :: '\n' :: cs => [] :: ofChars cs
  | c :: cs =>
    match ofChars cs with
    | [] => [[c]]
    | line :: lines => (c :: line) :: lines

/-- The lines of a text. -/
def split (text : String) : List String :=
  (ofChars text.toList).map String.ofList

end WitnessReplication.Text.Lines
