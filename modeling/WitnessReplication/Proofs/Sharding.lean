import Mathlib.Algebra.BigOperators.Fin
import Mathlib.Data.Set.Card
import WitnessReplication.Sharding.Combiner

/-!
# Sharded maps as single maps

A sharded map does what one finite map would do. Each of its shards holds the part of that map whose
keys choose it (`ShardedMap.Spreads`), whatever the shards that keys choose: every key is in one
shard only, and the sizes of the shards add up to the number of keys. Each call keeps this and is
answered alike, also an `upsert` whose combiner fails, and so are all calls of a sequence
(`ShardedMap.answers_alike`).

## Implementation notes

To a single map an `upsert` is one change of one entry. That a sharded map takes the entry out
before it calls the combiner can be seen only if the combiner fails: then the entry is lost.
-/

namespace WitnessReplication.ShardedMap

variable {κ ν ε ρ : Type}

/-! ### Calls -/

/-- A call on a map. -/
inductive Call (κ ν ε ρ : Type) where
  | insert (key : κ) (value : ν)
  | remove (key : κ)
  | get (key : κ)
  | contains (key : κ)
  | size
  | upsert (key : κ) (combine : Option ν → Except ε (Option ν × ρ))

/-- What a call gives. -/
inductive Answer (ν ε ρ : Type) where
  | entry (value : Option ν)
  | found (known : Bool)
  | count (n : Nat)
  | combined (result : Except ε ρ)
  deriving DecidableEq

/-- Makes calls one after another, and lists their answers. -/
def answerAll {σ α β : Type} (answer : σ → α → σ × β) : σ → List α → σ × List β
  | s, [] => (s, [])
  | s, call :: calls =>
    let first := answer s call
    let rest := answerAll answer first.1 calls
    (rest.1, first.2 :: rest.2)

variable [Ord κ] [Std.TransOrd κ]

/-- A call on a sharded map. -/
def answer [ShardKey κ] (m : ShardedMap κ ν) : Call κ ν ε ρ → ShardedMap κ ν × Answer ν ε ρ
  | .insert key value => let done := m.insert key value; (done.1, .entry done.2)
  | .remove key => let done := m.remove key; (done.1, .entry done.2)
  | .get key => (m, .entry (m.get? key))
  | .contains key => (m, .found (m.contains key))
  | .size => (m, .count m.size)
  | .upsert key combine => let done := m.upsert key combine; (done.1, .combined done.2)

/-- The same call on a single map. A combiner that fails costs its entry. -/
def answerSingle (t : Std.ExtTreeMap κ ν) : Call κ ν ε ρ → Std.ExtTreeMap κ ν × Answer ν ε ρ
  | .insert key value => (t.insert key value, .entry t[key]?)
  | .remove key => (t.erase key, .entry t[key]?)
  | .get key => (t, .entry t[key]?)
  | .contains key => (t, .found (t.contains key))
  | .size => (t, .count t.size)
  | .upsert key combine =>
    match combine t[key]? with
    | .error e => (t.erase key, .combined (.error e))
    | .ok (next, r) => (t.alter key fun _ => next, .combined (.ok r))

/-! ### Sizes -/

theorem card_keys [DecidableEq κ] (t : Std.ExtTreeMap κ ν) : t.keys.toFinset.card = t.size := by
  rw [List.toFinset_card_of_nodup Std.ExtTreeMap.nodup_keys, Std.ExtTreeMap.length_keys]

omit [Std.TransOrd κ] in
theorem size_eq_sum (m : ShardedMap κ ν) : m.size = ∑ i : Fin shardCount, m.shards[i].size := by
  have hlist : m.shards.toList.map Std.ExtTreeMap.size =
      List.ofFn fun i : Fin shardCount => m.shards[i].size := by
    apply List.ext_getElem <;> simp
  rw [ShardedMap.size, hlist, ← List.sum_ofFn]
  rfl

/-! ### The shards of a map -/

variable [ShardKey κ] {m : ShardedMap κ ν} {t t' : Std.ExtTreeMap κ ν} {key : κ}

/-- The entries of a single map are spread over the shards: each shard holds those whose keys choose
it. -/
def Spreads (m : ShardedMap κ ν) (t : Std.ExtTreeMap κ ν) : Prop :=
  ∀ (i : Fin shardCount) (key : κ), m.shards[i][key]? = if position key = i then t[key]? else none

theorem spreads_empty : (empty : ShardedMap κ ν).Spreads ∅ := by
  intro i key
  simp [empty]

namespace Spreads

/-- A key is in no shard but the one it chooses. -/
theorem getElem?_shardOf (h : m.Spreads t) (key other : κ) :
    (m.shardOf key)[other]? = if position other = position key then t[other]? else none :=
  h (position key) other

theorem get?_eq (h : m.Spreads t) (key : κ) : m.get? key = t[key]? := by
  rw [get?, h.getElem?_shardOf, if_pos rfl]

theorem contains_eq (h : m.Spreads t) (key : κ) : m.contains key = t.contains key := by
  rw [contains, Std.ExtTreeMap.contains_eq_isSome_getElem?, h.getElem?_shardOf, if_pos rfl,
    Std.ExtTreeMap.contains_eq_isSome_getElem?]

variable [Std.LawfulEqOrd κ]

/-- The entry of a key changes alike in its shard and in the single map. -/
theorem change {shard : Std.ExtTreeMap κ ν} {value? : Option ν} (h : m.Spreads t)
    (hshard : ∀ other : κ, shard[other]? =
      if compare key other = .eq then value? else (m.shardOf key)[other]?)
    (hsingle : ∀ other : κ, t'[other]? = if compare key other = .eq then value? else t[other]?) :
    (m.setShard key shard).Spreads t' := by
  intro i other
  by_cases hi : position key = i
  · subst hi
    have hset : (m.setShard key shard).shards[position key] = shard := by simp [setShard]
    rw [hset, hshard, hsingle, h.getElem?_shardOf]
    by_cases heq : key = other
    · simp [heq]
    · simp [heq]
  · have hset : (m.setShard key shard).shards[i] = m.shards[i] := by
      simp [setShard, Fin.val_inj, hi]
    rw [hset, h i other, hsingle]
    by_cases heq : key = other
    · simp [← heq, hi]
    · simp [heq]

theorem insert (h : m.Spreads t) (key : κ) (value : ν) :
    (m.insert key value).1.Spreads (t.insert key value) :=
  h.change (fun _ => Std.ExtTreeMap.getElem?_insert) fun _ => Std.ExtTreeMap.getElem?_insert

theorem remove (h : m.Spreads t) (key : κ) : (m.remove key).1.Spreads (t.erase key) :=
  h.change (fun _ => Std.ExtTreeMap.getElem?_erase) fun _ => Std.ExtTreeMap.getElem?_erase

/-- Every key is counted once, in the shard that it chooses. -/
theorem size_eq (h : m.Spreads t) : m.size = t.size := by
  classical
  have hshard : ∀ i : Fin shardCount,
      m.shards[i].keys.toFinset = {key ∈ t.keys.toFinset | position key = i} := by
    intro i
    ext key
    simp only [List.mem_toFinset, Finset.mem_filter, Std.ExtTreeMap.mem_keys,
      Std.ExtTreeMap.mem_iff_isSome_getElem?, h i key]
    split <;> simp_all
  calc m.size = ∑ i : Fin shardCount, m.shards[i].size := m.size_eq_sum
    _ = ∑ i : Fin shardCount, {key ∈ t.keys.toFinset | position key = i}.card := by
      simp only [← hshard, card_keys]
    _ = t.keys.toFinset.card :=
      (Finset.card_eq_sum_card_fiberwise fun key _ => Finset.mem_univ (position key)).symm
    _ = t.size := card_keys t

theorem encard_eq (h : m.Spreads t) : {key | m.contains key = true}.encard = m.size := by
  classical
  have hkeys : {key | m.contains key = true} = t.keys.toFinset := by
    ext key
    simp [h.contains_eq]
  rw [hkeys, Set.encard_coe_eq_coe_finsetCard, card_keys, h.size_eq]

/-- A combiner is given the same entry, and what it gives takes that entry's place. -/
theorem upsert (h : m.Spreads t) (key : κ) (combine : Option ν → Except ε (Option ν × ρ)) :
    (m.answer (.upsert key combine)).1.Spreads (answerSingle t (.upsert key combine)).1 ∧
      (m.answer (.upsert key combine)).2 = (answerSingle t (.upsert key combine)).2 := by
  have htaken := h.remove key
  simp only [ShardedMap.answer, answerSingle, ShardedMap.upsert, h.get?_eq]
  rcases combine t[key]? with e | ⟨none | value, r⟩
  · exact ⟨htaken, rfl⟩
  · have hgone : (t.alter key fun _ => none) = t.erase key := by
      apply Std.ExtTreeMap.ext_getElem?
      intro other
      rw [Std.ExtTreeMap.getElem?_alter, Std.ExtTreeMap.getElem?_erase]
    dsimp only
    rw [hgone]
    exact ⟨htaken, rfl⟩
  · have hput : (t.alter key fun _ => some value) = (t.erase key).insert key value := by
      apply Std.ExtTreeMap.ext_getElem?
      intro other
      rw [Std.ExtTreeMap.getElem?_alter, Std.ExtTreeMap.getElem?_insert,
        Std.ExtTreeMap.getElem?_erase]
      split <;> rfl
    dsimp only
    rw [hput]
    exact ⟨htaken.insert key value, rfl⟩

/-- One call. -/
theorem answer (h : m.Spreads t) (call : Call κ ν ε ρ) :
    (m.answer call).1.Spreads (answerSingle t call).1 ∧
      (m.answer call).2 = (answerSingle t call).2 := by
  cases call with
  | insert key value => exact ⟨h.insert key value, congrArg Answer.entry (h.get?_eq key)⟩
  | remove key => exact ⟨h.remove key, congrArg Answer.entry (h.get?_eq key)⟩
  | get key => exact ⟨h, congrArg Answer.entry (h.get?_eq key)⟩
  | contains key => exact ⟨h, congrArg Answer.found (h.contains_eq key)⟩
  | size => exact ⟨h, congrArg Answer.count h.size_eq⟩
  | upsert key combine => exact h.upsert key combine

/-- Calls one after another. -/
theorem answerAll (h : m.Spreads t) (calls : List (Call κ ν ε ρ)) :
    (answerAll ShardedMap.answer m calls).1.Spreads (answerAll answerSingle t calls).1 ∧
      (answerAll ShardedMap.answer m calls).2 = (answerAll answerSingle t calls).2 := by
  induction calls generalizing m t with
  | nil => exact ⟨h, rfl⟩
  | cons call calls ih =>
      obtain ⟨hfirst, hsame⟩ := h.answer call
      obtain ⟨hrest, hanswers⟩ := ih hfirst
      exact ⟨hrest, congrArg₂ List.cons hsame hanswers⟩

end Spreads

variable [Std.LawfulEqOrd κ]

/-- A combiner that fails costs its own entry, and no other. -/
theorem get?_upsert_error {e : ε} {combine : Option ν → Except ε (Option ν × ρ)}
    (h : (m.upsert key combine).2 = .error e) (other : κ) :
    (m.upsert key combine).1.get? other = if compare key other = .eq then none else m.get? other := by
  have htaken : (m.upsert key combine).1 = (m.remove key).1 := by
    unfold ShardedMap.upsert at h ⊢
    rcases hcombine : combine (m.get? key) with e | ⟨none | value, r⟩
    · rfl
    · rfl
    · rw [hcombine] at h
      cases h
  rw [htaken, get?_remove]

/-- A sharded map gives any calls the answers that a single map gives, and then has the same entry
for each key. Its size is the number of the keys that it has, and an `upsert` whose combiner fails
takes the entry of its own key out, and leaves all others as they are. -/
theorem answers_alike (calls : List (Call κ ν ε ρ)) :
    let sharded := answerAll answer (empty : ShardedMap κ ν) calls
    let single := answerAll answerSingle (∅ : Std.ExtTreeMap κ ν) calls
    sharded.2 = single.2 ∧
    (∀ key, sharded.1.get? key = single.1[key]?) ∧
    {key | sharded.1.contains key = true}.encard = sharded.1.size ∧
    ∀ key (combine : Option ν → Except ε (Option ν × ρ)) e,
      (sharded.1.upsert key combine).2 = .error e →
        (sharded.1.upsert key combine).1.get? key = none ∧
        ∀ other, other ≠ key →
          (sharded.1.upsert key combine).1.get? other = sharded.1.get? other := by
  intro sharded single
  obtain ⟨hspreads, hanswers⟩ : sharded.1.Spreads single.1 ∧ sharded.2 = single.2 :=
    spreads_empty.answerAll calls
  refine ⟨hanswers, hspreads.get?_eq, hspreads.encard_eq, fun key combine e hfails => ?_⟩
  constructor
  · simp [get?_upsert_error hfails]
  · intro other hother
    simp [get?_upsert_error hfails, hother.symm]

/-- Two keys of one shard, both of them negative: the word of the first wraps around, that of the
second does not. One entry is taken out by a combiner, the other is lost to one that fails. -/
def negativeKeys : List (Call ClientKey Int String (Option Int)) :=
  [.insert ⟨1, -8⟩ 1, .insert ⟨1, -40⟩ 2, .size, .upsert ⟨1, -8⟩ (toggle 3), .contains ⟨1, -8⟩,
    .upsert ⟨1, -40⟩ fun _ => .error "combiner", .get ⟨1, -40⟩, .insert ⟨1, -8⟩ 4, .size]

theorem answers_alike_negativeKeys :
    ShardKey.shard (⟨1, -8⟩ : ClientKey) = 23 ∧ ShardKey.shard (⟨1, -40⟩ : ClientKey) % 32 = 23 ∧
    (answerAll answer (empty : ShardedMap ClientKey Int) negativeKeys).2 =
      [.entry none, .entry none, .count 2, .combined (.ok (some 1)), .found false,
        .combined (.error "combiner"), .entry none, .entry none, .count 1] := by
  refine ⟨by decide, by decide, (answers_alike negativeKeys).1.trans ?_⟩
  decide

end WitnessReplication.ShardedMap
