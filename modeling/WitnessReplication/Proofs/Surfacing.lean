import WitnessReplication.Proofs.Counting

/-!
# Which weak write a witness reports

The witness of a replica that does not lead keeps one weak write per key, that of the command that
it recorded last, and forgets it when that command leaves the record. It reports the latest weak
write of a key while that is on record (`Witness.Surfaces`), and does not fall back on an earlier
one that is still on record.
-/

namespace WitnessReplication

open Replica

/-- Whether a request is a weak write of a key. -/
def Request.isWeakWrite (key : Key) (q : Request) : Bool :=
  q.weak && q.command.isWrite && q.command.key = key

theorem Request.isWeakWrite_iff {key : Key} {q : Request} :
    q.isWeakWrite key = true ↔ q.weak = true ∧ q.command.isWrite = true ∧ q.command.key = key := by
  simp [isWeakWrite, and_assoc]

namespace Witness

/-- Each key's latest weak write is what the witness has for the key, if it is on record. -/
structure Surfaces (latest : Key → Option Request)
    (known : Std.ExtTreeMap CommandId Witnessed) (w : Witness) : Prop where
  pendingWeak_eq : ∀ key, w.pendingWeak key =
    ((latest key).filter fun q => known.contains q.id).map fun q => (q.id, q.command.value)
  isWeakWrite : ∀ key q, latest key = some q → q.isWeakWrite key = true
  agrees : ∀ key q x, latest key = some q → known[q.id]? = some x → x = ⟨q.command, false⟩

variable {known : Std.ExtTreeMap CommandId Witnessed} {w : Witness} {id : CommandId}
variable {x : Witnessed} {key : Key} {q : Request} {latest latest' : Key → Option Request}
variable {w' : Witness}

/-- A request that enters the witness takes the place of the weak write before it if it is one. -/
theorem Enters.pendingWeak_request (h : w.Enters q.id q.command (!q.weak) w') (key : Key) :
    w'.pendingWeak key =
      if q.isWeakWrite key = true then some (q.id, q.command.value) else w.pendingWeak key := by
  rw [h.pendingWeak]
  refine if_congr ?_ rfl rfl
  rw [Request.isWeakWrite_iff, Bool.not_eq_false']
  tauto

/-- A request that leaves the witness is forgotten if it is the weak write that the entry has. -/
theorem Leaves.pendingWeak_request (h : w.Leaves q.id q.command (!q.weak) w') {key : Key} {e : Entry}
    (hleft : w'.entry? key = some e) : w'.pendingWeak key =
      if q.isWeakWrite key = true ∧ (w.pendingWeak key).map Prod.fst = some q.id then none
      else w.pendingWeak key := by
  rw [h.pendingWeak hleft]
  refine if_congr ?_ rfl rfl
  rw [Request.isWeakWrite_iff, Bool.not_eq_false']
  tauto

theorem surfaces_follower : follower.Surfaces (fun _ => none) ∅ where
  pendingWeak_eq key := by simp [pendingWeak, entry?, follower]
  isWeakWrite key q hq := by simp at hq
  agrees key q x hq := by simp at hq

namespace Surfaces

/-- A new request enters the record, and is the latest weak write of its key if it is one. -/
theorem record (h : w.Surfaces latest known)
    (hlatest : ∀ key, latest' key = if q.isWeakWrite key then some q else latest key)
    (hunique : ∀ key q', latest key = some q' → q'.id = q.id → q' = q) :
    (w.record q.id q.command (!q.weak)).1.Surfaces latest'
      (known.insert q.id ⟨q.command, !q.weak⟩) := by
  -- a latest weak write that is not the new request has another id
  have hother : ∀ {key q'}, latest key = some q' → q.isWeakWrite key = false → q.id ≠ q'.id := by
    intro key q' hq' hkind hid
    obtain rfl := hunique key q' hq' hid.symm
    rw [h.isWeakWrite key q' hq'] at hkind
    simp at hkind
  constructor
  case pendingWeak_eq =>
    intro key
    rw [(enters_record w q.id q.command (!q.weak)).pendingWeak_request, hlatest, h.pendingWeak_eq]
    cases hkind : q.isWeakWrite key with
    | true => simp
    | false =>
        rw [if_neg Bool.false_ne_true, if_neg Bool.false_ne_true]
        cases hq' : latest key with
        | none => simp
        | some q' =>
            have hne := hother hq' hkind
            simp [Option.filter, hne]
  case isWeakWrite =>
    intro key q' hq'
    rw [hlatest] at hq'
    split at hq'
    · rename_i hkind
      exact Option.some.inj hq' ▸ hkind
    · exact h.isWeakWrite key q' hq'
  case agrees =>
    intro key q' x hq' hx
    rw [hlatest] at hq'
    split at hq'
    · rename_i hkind
      obtain rfl := Option.some.inj hq'
      obtain ⟨hweak, -, -⟩ := Request.isWeakWrite_iff.1 hkind
      simpa [hweak, eq_comm] using hx
    · rename_i hkind
      have hne := hother hq' (Bool.eq_false_iff.2 hkind)
      rw [Std.ExtTreeMap.getElem?_insert, if_neg (by simpa using hne)] at hx
      exact h.agrees key q' x hq' hx

/-- A command leaves the record. -/
theorem retire (h : w.Surfaces latest known) (htallies : w.Tallies known)
    (hx : known[id]? = some x) :
    (w.retire id x.command x.strong).Surfaces latest (known.erase id) := by
  have hafter := htallies.retire hx
  have hagrees : ∀ key q x', latest key = some q → (known.erase id)[q.id]? = some x' →
      x' = ⟨q.command, false⟩ := by
    intro key q x' hq hx'
    rw [Std.ExtTreeMap.getElem?_erase] at hx'
    split at hx'
    · simp at hx'
    · exact h.agrees key q x' hq hx'
  refine ⟨fun key => ?_, h.isWeakWrite, hagrees⟩
  cases he : Witness.entry? (w.retire id x.command x.strong) key with
  | none =>
      -- no command on the key is left on record
      have hout : (latest key).filter (fun q => (known.erase id).contains q.id) = none := by
        refine Option.eq_none_iff_forall_ne_some.2 fun q hq => ?_
        obtain ⟨hlatest, hmem⟩ := Option.filter_eq_some_iff.1 hq
        rw [Std.ExtTreeMap.contains_eq_isSome_getElem?] at hmem
        obtain ⟨x', hx'⟩ := Option.isSome_iff_exists.1 hmem
        have hkey : x'.command.key = key := by
          rw [hagrees key q x' hlatest hx']
          exact (Request.isWeakWrite_iff.1 (h.isWeakWrite key q hlatest)).2.2
        obtain ⟨e, he'⟩ := hafter.entry_iff.2 ⟨q.id, x', hx', hkey⟩
        rw [he] at he'
        simp at he'
      rw [hout, pendingWeak, he]
      rfl
  | some e =>
      rw [(leaves_retire w id x.command x.strong).pendingWeak he, h.pendingWeak_eq]
      cases hlatest : latest key with
      | none => simp
      | some q =>
          cases hmem : known.contains q.id with
          | false => simp [Option.filter, hmem, Std.ExtTreeMap.contains_erase]
          | true =>
              by_cases hid : id = q.id
              · obtain rfl := h.agrees key q x hlatest (hid ▸ hx)
                obtain ⟨-, hwrite, hkey⟩ := Request.isWeakWrite_iff.1 (h.isWeakWrite key q hlatest)
                simp [Option.filter, hmem, hid, hwrite, hkey, Std.ExtTreeMap.contains_erase]
              · simp [Option.filter, hmem, hid, Ne.symm hid, Std.ExtTreeMap.contains_erase]

end Surfaces

end Witness

end WitnessReplication
