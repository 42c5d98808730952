import Mathlib.Data.Finset.Card
import WitnessReplication.Proofs.Pending
import WitnessReplication.Proofs.Replica.Vouching
import WitnessReplication.Proofs.Replica.Waiting

/-!
# What a replica has witnessed

A replica that does not lead keeps a record of the commands that it has witnessed, and its witness
counts them per key (`Witness.Tallies`). A command leaves both when it executes; one that has
executed by the time it is witnessed leaves at once. Whatever is recorded has therefore not
executed (`Replica.Witnesses`), and a replica whose record is empty has an empty witness.
-/

namespace WitnessReplication

open Replica

namespace Witness

/-- The witness of a replica that does not lead counts, per key, the commands of a record. -/
structure Tallies (known : Std.ExtTreeMap CommandId Witnessed) (w : Witness) : Prop where
  isLeader : w.isLeader = false
  staged_eq : w.staged = ∅
  entry_pos : ∀ {key : Key} {e}, w.unsynced[key]? = some e → 0 < e.slot
  counts : ∀ key : Key, ∃ ids : Finset CommandId,
    (∀ id, id ∈ ids ↔ ∃ x, known[id]? = some x ∧ x.command.key = key) ∧
      ids.card = w.pendingCount key

variable {known : Std.ExtTreeMap CommandId Witnessed} {w : Witness} {id : CommandId}
variable {x : Witnessed}

theorem tallies_follower : follower.Tallies ∅ where
  isLeader := rfl
  staged_eq := rfl
  entry_pos h := by simp [follower] at h
  counts key := ⟨∅, by simp, by simp [follower, pendingCount, entry?]⟩

/-- A command that is not in the record enters it. -/
theorem Tallies.record (h : w.Tallies known) (hnew : known[id]? = none) (c : Command)
    (strong : Bool) : (w.record id c strong).1.Tallies (known.insert id ⟨c, strong⟩) := by
  have hframe : ∃ e, (w.record id c strong).1 =
      { w with unsynced := w.unsynced.insert c.key e } ∧ 0 < e.slot := by
    unfold Witness.record
    split
    · exact ⟨_, rfl, Nat.one_pos⟩
    · exact ⟨_, rfl, Nat.succ_pos _⟩
  obtain ⟨e, hframe, hpos⟩ := hframe
  constructor
  case isLeader => rw [hframe, h.isLeader]
  case staged_eq => rw [hframe, h.staged_eq]
  case entry_pos =>
    intro key e' he'
    rw [hframe, Std.ExtTreeMap.getElem?_insert] at he'
    split at he'
    · exact Option.some.inj he' ▸ hpos
    · exact h.entry_pos he'
  case counts =>
    intro key
    obtain ⟨ids, hids, hcard⟩ := h.counts key
    rw [pendingCount_record]
    have hout : id ∉ ids := fun hmem => by
      obtain ⟨x, hx, -⟩ := (hids id).1 hmem
      rw [hnew] at hx
      simp at hx
    by_cases hkey : c.key = key
    · refine ⟨insert id ids, fun id' => ?_, ?_⟩
      · rw [Finset.mem_insert, hids, Std.ExtTreeMap.getElem?_insert]
        by_cases hid : id = id'
        · simp [hid, hkey]
        · simp [hid, Ne.symm hid]
      · rw [Finset.card_insert_of_notMem hout, hcard, if_pos hkey]
    · refine ⟨ids, fun id' => ?_, by rw [hcard, if_neg hkey, Nat.add_zero]⟩
      rw [hids, Std.ExtTreeMap.getElem?_insert]
      by_cases hid : id = id'
      · subst hid
        simp [hnew, hkey]
      · simp [hid]

/-- A command of the record leaves it. -/
theorem Tallies.retire (h : w.Tallies known) (hx : known[id]? = some x) :
    (w.retire id x.command x.strong).Tallies (known.erase id) := by
  have hframe : ∃ unsynced, w.retire id x.command x.strong = { w with unsynced } ∧
      ∀ (key : Key) e, unsynced[key]? = some e → 0 < e.slot := by
    unfold Witness.retire
    split
    · exact ⟨_, rfl, fun _ _ => h.entry_pos⟩
    · dsimp only
      split
      · refine ⟨_, rfl, fun key e he => ?_⟩
        rw [Std.ExtTreeMap.getElem?_erase] at he
        split at he
        · simp at he
        · exact h.entry_pos he
      · rename_i hne
        refine ⟨_, rfl, fun key e he => ?_⟩
        rw [Std.ExtTreeMap.getElem?_insert] at he
        split at he
        · exact Option.some.inj he ▸ Nat.pos_of_ne_zero hne
        · exact h.entry_pos he
  obtain ⟨unsynced, hframe, hpos⟩ := hframe
  constructor
  case isLeader => rw [hframe, h.isLeader]
  case staged_eq => rw [hframe, h.staged_eq]
  case entry_pos => exact fun he => hpos _ _ (by rwa [hframe] at he)
  case counts =>
    intro key
    obtain ⟨ids, hids, hcard⟩ := h.counts key
    rw [pendingCount_retire]
    refine ⟨ids.erase id, fun id' => ?_, ?_⟩
    · rw [Finset.mem_erase, hids, Std.ExtTreeMap.getElem?_erase]
      by_cases hid : id = id'
      · simp [hid]
      · simp [hid, Ne.symm hid]
    · by_cases hkey : x.command.key = key
      · rw [Finset.card_erase_of_mem ((hids id).2 ⟨x, hx, hkey⟩), hcard, if_pos hkey]
      · have hout : id ∉ ids := fun hmem => by
          obtain ⟨x', hx', hkey'⟩ := (hids id).1 hmem
          obtain rfl := Option.some.inj (hx.symm.trans hx')
          exact hkey hkey'
        rw [Finset.erase_eq_of_notMem hout, hcard, if_neg hkey, Nat.sub_zero]

/-- A witness that counts nothing is empty. -/
theorem Tallies.unsynced_eq (h : w.Tallies ∅) : w.unsynced = ∅ := by
  apply Std.ExtTreeMap.ext_getElem?
  intro key
  obtain ⟨ids, hids, hcard⟩ := h.counts key
  obtain rfl : ids = ∅ := Finset.eq_empty_of_forall_notMem fun id hmem => by
    obtain ⟨x, hx, -⟩ := (hids id).1 hmem
    simp at hx
  cases he : w.unsynced[key]? with
  | none => simp
  | some e =>
      have hpos := h.entry_pos he
      have hzero : e.slot = 0 := by simpa [pendingCount, entry?, he] using hcard.symm
      exact absurd hzero (Nat.ne_of_gt hpos)

end Witness

namespace Replica

/-- The witness of a replica counts the commands that are recorded, none of which has executed. -/
structure Witnesses (r : Replica) : Prop where
  tallies : r.witness.Tallies r.witnessed
  unexecuted : ∀ id ∈ r.witnessed, r.values.contains id = false

variable {log log' : Log} {config : Config} {leads : Bool} {issued : List Request}
variable {base r r' : Replica} {m : ReplicaMessage} {q : Request} {effects : List Effect}
variable {id : CommandId} {slot : Slot} {s : LiveSlot} {c : Command} {fits : Slot → Event → Prop}

theorem witnesses_initial {i : ReplicaId} (hleader : config.isLeader i = false) :
    (initial i config).Witnesses where
  tallies := by simpa [initial, hleader] using Witness.tallies_follower
  unexecuted id hid := by simp [initial] at hid

/-- A command that is recorded and counted leaves both. -/
theorem tallies_retire (h : r.witness.Tallies r.witnessed) (id : CommandId) :
    (r.retire id).witness.Tallies (r.witnessed.erase id) := by
  cases hx : r.witnessed[id]? with
  | none =>
      rw [← witnessed_retire]
      simpa [Replica.retire, hx] using h
  | some x => simpa [Replica.retire, hx] using h.retire hx

/-- Witnessing a command that is not recorded leaves what is recorded counted and unexecuted. -/
theorem Witnesses.recordWitness (h : r.Witnesses) (hnew : id ∉ r.witnessed) (c : Command)
    (strong : Bool) : (r.recordWitness id c strong).1.Witnesses := by
  have hnone : r.witnessed[id]? = none := by simpa using hnew
  have htallies := h.tallies.record hnone c strong
  unfold Replica.recordWitness
  dsimp only
  split
  · rw [retire_eq _ id _ rfl rfl]
    refine ⟨tallies_retire htallies id, fun id' hid' => ?_⟩
    obtain ⟨hne, hin⟩ := Std.ExtTreeMap.mem_erase.1 hid'
    refine h.unexecuted id' ((Std.ExtTreeMap.mem_insert.1 hin).resolve_left ?_)
    simpa using hne
  · rename_i hvalue
    refine ⟨htallies, fun id' hid' => ?_⟩
    rcases Std.ExtTreeMap.mem_insert.1 hid' with heq | hold
    · exact Std.LawfulEqOrd.eq_of_compare heq ▸ Bool.eq_false_iff.2 hvalue
    · exact h.unexecuted id' hold

theorem Witnesses.congr (h : r.Witnesses) (hwitness : r'.witness = r.witness)
    (hwitnessed : r'.witnessed = r.witnessed) (hvalues : r'.values = r.values) :
    r'.Witnesses where
  tallies := by rw [hwitness, hwitnessed]; exact h.tallies
  unexecuted := by rw [hwitnessed, hvalues]; exact h.unexecuted

theorem Change.witnesses (hc : Change fits r effects r') (h : r.Witnesses) : r'.Witnesses := by
  obtain ⟨_, _, _, rfl⟩ | ⟨slot, s, id, c, hlive, hx, hturn, rfl⟩ := hc.frame_or_executed
  · exact h.congr rfl rfl rfl
  · have hleader := h.tallies.isLeader
    constructor
    case tallies =>
      simpa [dropSlot, execute_eq, hleader] using tallies_retire h.tallies id
    case unexecuted =>
      intro id' hid'
      have hin : id ≠ id' ∧ id' ∈ r.witnessed := by
        simpa [dropSlot, execute_eq, hleader] using hid'
      rw [values_execute, Std.ExtTreeMap.contains_insert, h.unexecuted id' hin.2]
      simpa using hin.1

/-- What is on record after a change was so before. -/
theorem Change.getElem?_witnessed (hc : Change fits r effects r') {x : Witnessed}
    (h : r'.witnessed[id]? = some x) : r.witnessed[id]? = some x := by
  obtain ⟨_, _, _, rfl⟩ | ⟨slot, s, id', c, hlive, hx, hturn, rfl⟩ := hc.frame_or_executed
  · exact h
  · rw [dropSlot, execute_eq] at h
    dsimp only at h
    split at h
    · exact h
    · rw [Std.ExtTreeMap.getElem?_erase] at h
      split at h
      · simp at h
      · exact h

/-- A change takes commands out of the record at most. -/
theorem Change.witnessed_of (hc : Change fits r effects r') (h : id ∈ r'.witnessed) :
    id ∈ r.witnessed := by
  rw [Std.ExtTreeMap.mem_iff_isSome_getElem?] at h ⊢
  obtain ⟨x, hx⟩ := Option.isSome_iff_exists.1 h
  exact Option.isSome_iff_exists.2 ⟨x, hc.getElem?_witnessed hx⟩

/-! ### Handling a message -/

namespace Attends

/-- Whatever is recorded after a message was recorded before, or the message brings it. -/
theorem witnessed_of (h : base.Attends config log issued m log')
    (hid : id ∈ (base.handle m).1.witnessed) :
    id ∈ base.witnessed ∨ ∃ q, m.request? = some q ∧ q.id = id := by
  have hnoted : ∀ id ∈ (base.noted m).witnessed,
      id ∈ base.witnessed ∨ ∃ q, m.request? = some q ∧ q.id = id := by
    intro id hid
    rcases (noted_noted base m).2 id with hsame | ⟨q, hq, hqid, -⟩
    · left
      rw [Std.ExtTreeMap.mem_iff_isSome_getElem?] at hid ⊢
      rw [← hsame]
      exact hid
    · exact .inr ⟨q, hq, hqid⟩
  obtain ⟨-, -, hafter⟩ := h.preserves (P := fun r _ => ∀ id ∈ r.witnessed,
    id ∈ base.witnessed ∨ ∃ q, m.request? = some q ∧ q.id = id) hnoted
    fun _ hp hc id hid => hp id (hc.witnessed_of hid)
  exact hafter id hid

/-- The leader records nothing. -/
theorem not_witnessed (h : base.Attends config log issued m log') (hleader : base.isLeader = true)
    (hnone : ∀ id, id ∉ base.witnessed) : ∀ id, id ∉ (base.handle m).1.witnessed := by
  have hnoted : (base.noted m).witnessed = base.witnessed := by
    cases hq : m.request? with
    | none =>
        obtain ⟨_, hframe⟩ := noted_of_request?_eq_none (r := base) hq
        rw [hframe]
    | some q =>
        obtain ⟨_, _, _, _, hframe⟩ := (h.leads hleader).lead_frame q
        rcases h.noted_of_isLeader hleader hq with hsame | hled
        · rw [hsame]
        · rw [hled, hframe]
  obtain ⟨-, -, hafter⟩ := h.preserves (P := fun r _ => ∀ id, id ∉ r.witnessed)
    (fun id => hnoted ▸ hnone id) fun _ hp hc id hid => hp id (hc.witnessed_of hid)
  exact hafter

/-- A replica that does not lead counts what it has recorded, if no weak command comes again while
it is recorded. -/
theorem witnesses (h : base.Attends config log issued m log') (hleader : base.isLeader = false)
    (hnew : ∀ q, m.request? = some q → q.weak = true → q.id ∉ base.witnessed)
    (hw : base.Witnesses) : (base.handle m).1.Witnesses := by
  have hnoted : (base.noted m).Witnesses := by
    cases hq : m.request? with
    | none =>
        obtain ⟨_, hframe⟩ := noted_of_request?_eq_none (r := base) hq
        rw [hframe]
        exact hw.congr rfl rfl rfl
    | some q =>
        cases hweak : q.weak with
        | true =>
            obtain ⟨_, hframe⟩ := base.recordPending_frame q.id q.command
            rw [noted_weak_of_not_isLeader hleader hq hweak]
            split
            · have hpending : (base.recordPending q.id q.command).Witnesses := by
                rw [hframe]
                exact hw.congr rfl rfl rfl
              refine hpending.recordWitness ?_ q.command false
              rw [hframe]
              exact hnew q hq hweak
            · exact hw
        | false =>
            rw [noted_strong_of_not_isLeader hleader hq hweak]
            split
            · exact hw
            · rename_i hunknown
              exact hw.recordWitness (by simpa using hunknown) q.command true
  obtain ⟨-, -, hafter⟩ := h.preserves (P := fun r _ => r.Witnesses) hnoted
    fun _ hp hc => hc.witnesses hp
  exact hafter

end Attends

end Replica

end WitnessReplication
