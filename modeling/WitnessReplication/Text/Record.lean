/-!
# Texts of records

Values are shown to a reader as `Name { field: value, .. }`, wrapped values as `Name(value)` and
sequences as `[a, b]`.
-/

namespace WitnessReplication.Text.Record

/-- The text of a record with named fields. -/
def record (name : String) (fields : List (String × String)) : String :=
  name ++ " \x7b " ++ ", ".intercalate (fields.map fun field => field.1 ++ ": " ++ field.2) ++
    " \x7d"

/-- The text of a named value that holds one other. -/
def wrapped (name : String) (inner : String) : String :=
  name ++ "(" ++ inner ++ ")"

/-- The text of a sequence. -/
def sequence (items : List String) : String :=
  "[" ++ ", ".intercalate items ++ "]"

end WitnessReplication.Text.Record
