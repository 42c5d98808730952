import WitnessReplication.Sharding

/-!
# Combiners of integers

Combiners for maps to integers: one keeps sums, one puts a value in or takes it out, and one
always fails.
-/

namespace WitnessReplication.ShardedMap

/-- Adds a number to the value, which counts as zero when there is none, and gives the old value
and the sum. A sum of zero is not kept. -/
def addTo (n : Int) (current : Option Int) : Except String (Option Int × Option Int × Int) :=
  let sum := current.getD 0 + n
  .ok (if sum = 0 then none else some sum, current, sum)

/-- Takes a value out if there is one, and gives it; puts one in otherwise. -/
def toggle (value : Int) (current : Option Int) : Except String (Option Int × Option Int) :=
  .ok (if current.isSome then none else some value, current)

/-- Fails. -/
def fail (cause : String) (_ : Option Int) : Except String (Option Int × Unit) :=
  .error cause

end WitnessReplication.ShardedMap
