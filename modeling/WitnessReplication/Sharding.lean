import WitnessReplication.Identity

/-!
# Sharded maps

A sharded map spreads its entries over a fixed number of finite maps. The shard of a key comes
from the key alone, by arithmetic on 64-bit words.

An entry is changed by `upsert`: it is taken out, handed to a combiner, and what the combiner
gives is put back. A combiner that fails gives nothing, so its entry stays out.
-/

namespace WitnessReplication

/-- Keys that choose a shard: the 64-bit word of a key. -/
class ShardKey (κ : Type) where
  shard : κ → Nat

instance : ShardKey Nat := ⟨fun n => n % UInt64.size⟩

/-- A negative key is taken in two's complement. -/
instance : ShardKey Int := ⟨fun i => (i % (UInt64.size : Int)).toNat⟩

instance : ShardKey CommandId := ⟨fun id => (31 * id.client + id.seq) % UInt64.size⟩

instance : ShardKey ClientKey :=
  ⟨fun pair => ((31 * (pair.client : Int) + pair.key) % (UInt64.size : Int)).toNat⟩

/-- The number of shards of a map. -/
def shardCount : Nat := 32

/-- A map spread over a fixed number of finite maps. -/
structure ShardedMap (κ ν : Type) [Ord κ] where
  shards : Vector (Std.ExtTreeMap κ ν) shardCount

namespace ShardedMap

variable {κ ν : Type} [Ord κ] [Std.TransOrd κ] [ShardKey κ]

/-- The map without entries. -/
def empty : ShardedMap κ ν := ⟨Vector.replicate shardCount ∅⟩

/-- The position of a key's shard. -/
def position (key : κ) : Fin shardCount :=
  ⟨ShardKey.shard key % shardCount, Nat.mod_lt _ (by decide)⟩

/-- The shard of a key. -/
def shardOf (m : ShardedMap κ ν) (key : κ) : Std.ExtTreeMap κ ν :=
  m.shards[position key]

/-- Replaces the shard of a key. -/
def setShard (m : ShardedMap κ ν) (key : κ) (shard : Std.ExtTreeMap κ ν) : ShardedMap κ ν :=
  ⟨m.shards.set (position key) shard⟩

/-- The value at a key. -/
def get? (m : ShardedMap κ ν) (key : κ) : Option ν := (m.shardOf key)[key]?

/-- Whether there is a value at a key. -/
def contains (m : ShardedMap κ ν) (key : κ) : Bool := (m.shardOf key).contains key

/-- Puts a value at a key; also gives the value that was there. -/
def insert (m : ShardedMap κ ν) (key : κ) (value : ν) : ShardedMap κ ν × Option ν :=
  (m.setShard key ((m.shardOf key).insert key value), m.get? key)

/-- Removes the value at a key; also gives it. -/
def remove (m : ShardedMap κ ν) (key : κ) : ShardedMap κ ν × Option ν :=
  (m.setShard key ((m.shardOf key).erase key), m.get? key)

/-- The number of entries. -/
def size (m : ShardedMap κ ν) : Nat :=
  (m.shards.toList.map Std.ExtTreeMap.size).foldr (· + ·) 0

/-- Whether there is no entry. -/
def isEmpty (m : ShardedMap κ ν) : Bool := m.size = 0

/-- Takes the entry of a key out, combines it, and puts back what the combiner gives. -/
def upsert {ε ρ : Type} (m : ShardedMap κ ν) (key : κ)
    (combine : Option ν → Except ε (Option ν × ρ)) : ShardedMap κ ν × Except ε ρ :=
  let taken := (m.remove key).1
  match combine (m.get? key) with
  | .error e => (taken, .error e)
  | .ok (none, r) => (taken, .ok r)
  | .ok (some value, r) => ((taken.insert key value).1, .ok r)

omit [Std.TransOrd κ] in
/-- Replacing a shard changes that shard alone. -/
theorem shardOf_setShard (m : ShardedMap κ ν) (key key' : κ) (shard : Std.ExtTreeMap κ ν) :
    (m.setShard key shard).shardOf key' =
      if position key = position key' then shard else m.shardOf key' := by
  simp only [shardOf, setShard, Fin.getElem_fin, Vector.getElem_set, Fin.ext_iff]

/-- After a removal the key has no value, and every other key the one it had. -/
theorem get?_remove [Std.LawfulEqOrd κ] (m : ShardedMap κ ν) (key key' : κ) :
    (m.remove key).1.get? key' = if compare key key' = .eq then none else m.get? key' := by
  simp only [get?, remove, shardOf_setShard]
  by_cases h : compare key key' = .eq
  · cases Std.LawfulEqOrd.eq_of_compare h
    simp
  · split
    · rename_i hp
      rw [Std.ExtTreeMap.getElem?_erase, if_neg h]
      simp only [shardOf, hp]
    · rfl

end ShardedMap

end WitnessReplication
