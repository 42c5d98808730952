import WitnessReplication.Command
import WitnessReplication.Text.Blank
import WitnessReplication.Decimal.Count

/-!
# The replicated store

A store maps keys to values and counts the commands applied to it. `Store.execute` applies a
command; `Store.result` evaluates one without applying it, for which a write has no result.
-/

namespace WitnessReplication

/-- A key-value store and the number of commands applied to it. -/
structure Store where
  data : Std.ExtTreeMap Key Value
  applied : Nat
  deriving Inhabited

namespace Store

/-- The store that no command has been applied to. -/
def empty : Store := ⟨∅, 0⟩

/-- The value stored at a key, if one is. -/
def get? (s : Store) (key : Key) : Option Value := s.data[key]?

/-- The number of stored keys. -/
def size (s : Store) : Nat := s.data.size

/-- The number of keys a scan asks for; what is no count asks for none. -/
def scanCount (v : Value) : Nat :=
  (Decimal.Count.read? (Text.Blank.trim v.text)).getD 0

/-- The stored values from a key on, in the order of their keys. -/
def valuesFrom (s : Store) (key : Key) : List Value :=
  (s.data.toList.filter fun entry => decide (key ≤ entry.1)).map Prod.snd

/-- The texts of the first `count` values from a key on, joined by commas. -/
def scan (s : Store) (key : Key) (count : Nat) : Value :=
  .ofText (",".intercalate (((s.valuesFrom key).take count).map Value.text))

/-- What a command yields on a store that it leaves as it is. -/
def result (s : Store) (c : Command) : Value :=
  match c.op with
  | .get => (s.get? c.key).getD .nil
  | .scan => s.scan c.key (scanCount c.value)
  | .put => .nil
  | .none => .nil

/-- Applies a command: the store after it and what it yields. -/
def execute (s : Store) (c : Command) : Store × Value :=
  match c.op with
  | .put => (⟨s.data.insert c.key c.value, s.applied + 1⟩, c.value)
  | _ => ({ s with applied := s.applied + 1 }, s.result c)

/-- The store after a sequence of commands. -/
def executeAll (s : Store) (cs : List Command) : Store :=
  cs.foldl (fun s c => (s.execute c).1) s

@[simp] theorem applied_execute (s : Store) (c : Command) :
    (s.execute c).1.applied = s.applied + 1 := by
  unfold execute; split <;> rfl

@[simp] theorem executeAll_nil (s : Store) : s.executeAll [] = s := rfl

@[simp] theorem executeAll_cons (s : Store) (c : Command) (cs : List Command) :
    s.executeAll (c :: cs) = (s.execute c).1.executeAll cs := rfl

theorem executeAll_append (s : Store) (cs ds : List Command) :
    s.executeAll (cs ++ ds) = (s.executeAll cs).executeAll ds :=
  List.foldl_append

/-- Every command is counted once. -/
@[simp] theorem applied_executeAll (s : Store) (cs : List Command) :
    (s.executeAll cs).applied = s.applied + cs.length := by
  induction cs generalizing s with
  | nil => rfl
  | cons c cs ih => rw [executeAll_cons, ih, applied_execute, List.length_cons]; omega

end Store

end WitnessReplication
