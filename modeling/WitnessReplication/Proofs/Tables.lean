import Mathlib.Algebra.GroupWithZero.Nat
import Std.Data.ExtTreeMap
import Std.Data.ExtTreeSet

/-!
# Tables

Writing two entries of a table, or writing one and erasing another, comes to the same in either
order, and so it is with the members of a set. An entry that is new to a table is new to its list
of entries, and to what its entries come to in all (`Tables.total`).
-/

namespace WitnessReplication.Tables

variable {κ ν : Type} [Ord κ] [Std.TransOrd κ] [Std.LawfulEqOrd κ] {k k' : κ} {v v' : ν}

theorem insert_comm (t : Std.ExtTreeMap κ ν) (hne : k ≠ k') :
    (t.insert k v).insert k' v' = (t.insert k' v').insert k v := by
  apply Std.ExtTreeMap.ext_getElem?
  intro other
  simp only [Std.ExtTreeMap.getElem?_insert, Std.compare_eq_iff_eq]
  by_cases hother : k = other
  · subst hother
    simp [hne.symm]
  · simp [hother]

theorem insert_erase (t : Std.ExtTreeMap κ ν) (hne : k ≠ k') :
    (t.insert k v).erase k' = (t.erase k').insert k v := by
  apply Std.ExtTreeMap.ext_getElem?
  intro other
  simp only [Std.ExtTreeMap.getElem?_insert, Std.ExtTreeMap.getElem?_erase, Std.compare_eq_iff_eq]
  by_cases hother : k = other
  · subst hother
    simp [hne.symm]
  · simp [hother]

/-- An erased entry may be written again. -/
theorem insert_erase_self {t : Std.ExtTreeMap κ ν} (h : t[k]? = some v) :
    (t.erase k).insert k v = t := by
  apply Std.ExtTreeMap.ext_getElem?
  intro other
  simp only [Std.ExtTreeMap.getElem?_insert, Std.ExtTreeMap.getElem?_erase, Std.compare_eq_iff_eq]
  by_cases hother : k = other
  · simp [← hother, h]
  · simp [hother]

theorem erase_insert_self (t : Std.ExtTreeMap κ ν) : (t.insert k v).erase k = t.erase k := by
  apply Std.ExtTreeMap.ext_getElem?
  intro other
  simp only [Std.ExtTreeMap.getElem?_insert, Std.ExtTreeMap.getElem?_erase, Std.compare_eq_iff_eq]
  split
  · rfl
  · rfl

theorem erase_of_not_mem {t : Std.ExtTreeMap κ ν} (h : t[k]? = none) : t.erase k = t := by
  apply Std.ExtTreeMap.ext_getElem?
  intro other
  rw [Std.ExtTreeMap.getElem?_erase]
  split
  · rename_i heq
    rw [← Std.LawfulEqOrd.eq_of_compare heq, h]
  · rfl

theorem set_insert_comm (t : Std.ExtTreeSet κ) (k k' : κ) :
    (t.insert k).insert k' = (t.insert k').insert k := by
  apply Std.ExtTreeSet.ext_mem
  intro other
  simp only [Std.ExtTreeSet.mem_insert]
  exact or_left_comm

theorem set_insert_erase (t : Std.ExtTreeSet κ) (hne : k ≠ k') :
    (t.insert k).erase k' = (t.erase k').insert k := by
  apply Std.ExtTreeSet.ext_mem
  intro other
  simp only [Std.ExtTreeSet.mem_insert, Std.ExtTreeSet.mem_erase, Std.compare_eq_iff_eq]
  constructor
  · rintro ⟨hother, rfl | hmem⟩
    · exact .inl rfl
    · exact .inr ⟨hother, hmem⟩
  · rintro (rfl | ⟨hother, hmem⟩)
    · exact ⟨by simpa using hne.symm, .inl rfl⟩
    · exact ⟨hother, .inr hmem⟩

/-- No entry of a table is listed twice. -/
theorem nodup_toList (t : Std.ExtTreeMap κ ν) : t.toList.Nodup := by
  refine (Std.ExtTreeMap.distinct_keys_toList (t := t)).imp ?_
  rintro e _ hkeys rfl
  exact hkeys Std.ReflCmp.compare_self

theorem toList_insert {t : Std.ExtTreeMap κ ν} (hnew : t[k]? = none) :
    (t.insert k v).toList.Perm ((k, v) :: t.toList) := by
  have hout : (k, v) ∉ t.toList := by
    rw [Std.ExtTreeMap.mem_toList_iff_getElem?_eq_some, hnew]
    simp
  refine (List.perm_ext_iff_of_nodup (nodup_toList _)
    (List.nodup_cons.2 ⟨hout, nodup_toList t⟩)).2 fun ⟨k', v'⟩ => ?_
  simp only [List.mem_cons, Std.ExtTreeMap.mem_toList_iff_getElem?_eq_some,
    Std.ExtTreeMap.getElem?_insert, Std.compare_eq_iff_eq]
  by_cases hk : k = k'
  · subst hk
    simp [hnew, eq_comm]
  · simp [hk, Ne.symm hk]

theorem toList_erase {t : Std.ExtTreeMap κ ν} (h : t[k]? = some v) :
    t.toList.Perm ((k, v) :: (t.erase k).toList) := by
  have hnew : (t.erase k)[k]? = none := by simp
  have hinsert := toList_insert (v := v) hnew
  rwa [insert_erase_self h] at hinsert

omit [Std.LawfulEqOrd κ] in
theorem size_erase {t : Std.ExtTreeMap κ ν} (h : t[k]? = some v) :
    (t.erase k).size + 1 = t.size := by
  have hmem : k ∈ t := Std.ExtTreeMap.mem_iff_isSome_getElem?.2 (by simp [h])
  have hpos : t.size ≠ 0 := fun hzero => by
    rw [Std.ExtTreeMap.eq_empty_iff_size_eq_zero.2 hzero] at hmem
    simp at hmem
  rw [Std.ExtTreeMap.size_erase, if_pos (Std.ExtTreeMap.contains_iff_mem.2 hmem)]
  exact Nat.succ_pred_eq_of_ne_zero hpos

omit [Std.LawfulEqOrd κ] in
theorem set_size_erase {t : Std.ExtTreeSet κ} (h : t.contains k = true) :
    (t.erase k).size + 1 = t.size := by
  have hpos : t.size ≠ 0 := fun hzero => by
    rw [Std.ExtTreeSet.eq_empty_iff_size_eq_zero.2 hzero] at h
    simp at h
  rw [Std.ExtTreeSet.size_erase, if_pos h]
  exact Nat.succ_pred_eq_of_ne_zero hpos

/-! ### Totals -/

/-- What the entries of a table come to in all. -/
def total (f : ν → Nat) (t : Std.ExtTreeMap κ ν) : Nat := (t.toList.map fun e => f e.2).sum

variable (f : ν → Nat)

omit [Std.LawfulEqOrd κ] in
@[simp] theorem total_empty : total f (∅ : Std.ExtTreeMap κ ν) = 0 := by
  rw [total, Std.ExtTreeMap.toList_eq_nil_iff.2 rfl, List.map_nil, List.sum_nil]

theorem total_insert_new {t : Std.ExtTreeMap κ ν} (hnew : t[k]? = none) :
    total f (t.insert k v) = f v + total f t := by
  have hperm := (toList_insert (v := v) hnew).map fun e => f e.2
  rw [total, hperm.sum_nat, List.map_cons, List.sum_cons]
  rfl

theorem total_erase {t : Std.ExtTreeMap κ ν} (h : t[k]? = some v) :
    total f t = f v + total f (t.erase k) := by
  have hperm := (toList_erase h).map fun e => f e.2
  rw [total, hperm.sum_nat, List.map_cons, List.sum_cons]
  rfl

/-- An entry that is written over no longer counts. -/
theorem total_insert {t : Std.ExtTreeMap κ ν} (h : t[k]? = some v) (v' : ν) :
    total f (t.insert k v') + f v = total f t + f v' := by
  have hinsert : t.insert k v' = (t.erase k).insert k v' := by
    apply Std.ExtTreeMap.ext_getElem?
    intro other
    simp only [Std.ExtTreeMap.getElem?_insert, Std.ExtTreeMap.getElem?_erase]
    split
    · rfl
    · rfl
  have hnew : (t.erase k)[k]? = none := by simp
  rw [hinsert, total_insert_new f hnew, total_erase f h]
  omega

theorem total_insert_le (t : Std.ExtTreeMap κ ν) (k : κ) (v : ν) :
    total f (t.insert k v) ≤ f v + total f t := by
  cases h : t[k]? with
  | none => exact Nat.le_of_eq (total_insert_new f h)
  | some v₀ =>
      have hinsert := total_insert f h v
      omega

end WitnessReplication.Tables
