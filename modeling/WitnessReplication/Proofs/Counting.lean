import WitnessReplication.Proofs.Replica.Witnessing
import WitnessReplication.Proofs.Tables

/-!
# What a witness counts

The witness of a replica that does not lead keeps two numbers per key: how many recorded commands
are on the key, and how many of these are strong writes. `Witnessed.count` counts the commands of
a record directly, and the witness agrees with it (`Witness.Tallies.pendingCount_eq`,
`Witness.CountsStrong`). Beside them it keeps a single weak write per key.

## Implementation notes

An entry is dropped with all that it counts when the last command on its key leaves. That loses
no strong write, because by then the record has no command on the key left.
-/

namespace WitnessReplication

open Replica

namespace Replica.Witnessed

/-- The number of recorded commands of a kind. -/
def count (known : Std.ExtTreeMap CommandId Witnessed) (kind : Witnessed → Bool) : Nat :=
  known.toList.countP fun e => kind e.2

/-- Whether a command is on a key. -/
def isOn (key : Key) (x : Witnessed) : Bool := x.command.key = key

/-- Whether a command is a strong write of a key. -/
def isStrongWrite (key : Key) (x : Witnessed) : Bool := x.isOn key && x.command.isWrite && x.strong

variable {known : Std.ExtTreeMap CommandId Witnessed} {id : CommandId} {x : Witnessed}
variable (kind : Witnessed → Bool)

theorem count_insert (hnew : known[id]? = none) :
    count (known.insert id x) kind = count known kind + if kind x then 1 else 0 := by
  rw [count, (Tables.toList_insert hnew).countP_eq, List.countP_cons]
  rfl

theorem count_erase (hx : known[id]? = some x) :
    count known kind = count (known.erase id) kind + if kind x then 1 else 0 := by
  have hout : (known.erase id)[id]? = none := by simp
  rw [← count_insert kind hout, Tables.insert_erase_self hx]

theorem count_pos_iff :
    0 < count known kind ↔ ∃ (id : CommandId) (x : Witnessed), known[id]? = some x ∧ kind x = true := by
  simp only [count, List.countP_pos_iff, Prod.exists,
    Std.ExtTreeMap.mem_toList_iff_getElem?_eq_some]

theorem count_le (known : Std.ExtTreeMap CommandId Witnessed) (key : Key) :
    count known (isStrongWrite key) ≤ count known (isOn key) :=
  List.countP_mono_left fun e _ he => by
    simp only [isStrongWrite, Bool.and_eq_true] at he
    exact he.1.1

end Replica.Witnessed

namespace Witness

/-- The number of strong writes of a key that a replica that does not lead has pending. -/
def strongCount (w : Witness) (key : Key) : Nat := ((w.entry? key).map Entry.strongWrites).getD 0

/-- The weak write that the entry of a key has. -/
def pendingWeak (w : Witness) (key : Key) : Option (CommandId × Value) :=
  (w.entry? key).bind Entry.weakWrite

/-- The witness counts, per key, the strong writes of a record. -/
def CountsStrong (known : Std.ExtTreeMap CommandId Witnessed) (w : Witness) : Prop :=
  ∀ key, w.strongCount key = Witnessed.count known (Witnessed.isStrongWrite key)

variable {known : Std.ExtTreeMap CommandId Witnessed} {w : Witness} {id : CommandId}
variable {x : Witnessed} {key : Key}

/-- The pending count of a key is the number of recorded commands on it. -/
theorem Tallies.pendingCount_eq (h : w.Tallies known) (key : Key) :
    w.pendingCount key = Witnessed.count known (Witnessed.isOn key) := by
  obtain ⟨ids, hids, hcard⟩ := h.counts key
  let listed := (known.toList.filter fun e => Witnessed.isOn key e.2).map Prod.fst
  have hnodup : listed.Nodup := by
    have hkeys : (known.toList.map Prod.fst).Nodup := by
      rw [Std.ExtTreeMap.map_fst_toList_eq_keys]
      exact Std.ExtTreeMap.nodup_keys
    exact hkeys.sublist (List.filter_sublist.map Prod.fst)
  have hlisted : ids = listed.toFinset := by
    ext id
    simp [listed, hids, Std.ExtTreeMap.mem_toList_iff_getElem?_eq_some, Witnessed.isOn]
  rw [← hcard, hlisted, List.toFinset_card_of_nodup hnodup, List.length_map, Witnessed.count,
    List.countP_eq_length_filter]

/-- A key has an entry exactly if a recorded command is on it. -/
theorem Tallies.entry_iff (h : w.Tallies known) :
    (∃ e, w.entry? key = some e) ↔
      ∃ (id : CommandId) (x : Witnessed), known[id]? = some x ∧ x.command.key = key := by
  have hpos : 0 < w.pendingCount key ↔ ∃ e, w.entry? key = some e := by
    constructor
    · intro hpos
      cases he : w.entry? key with
      | none => simp [pendingCount, he] at hpos
      | some e => exact ⟨e, rfl⟩
    · rintro ⟨e, he⟩
      simpa [pendingCount, he] using h.entry_pos he
  rw [← hpos, h.pendingCount_eq, Witnessed.count_pos_iff]
  simp [Witnessed.isOn]

theorem countsStrong_follower : follower.CountsStrong ∅ := by
  intro key
  have hnone : ¬0 < Witnessed.count ∅ (Witnessed.isStrongWrite key) := by
    simp [Witnessed.count_pos_iff]
  simpa [strongCount, entry?, follower] using (Nat.eq_zero_of_not_pos hnone).symm

/-! ### Entering and leaving -/

/-- A command enters the witness: the entry of its key tracks it, and the other entries stay. -/
def Enters (w : Witness) (id : CommandId) (c : Command) (strong : Bool) (w' : Witness) : Prop :=
  ∃ e : Entry, e.strongWrites = w.strongCount c.key ∧ e.weakWrite = w.pendingWeak c.key ∧
    ∀ key, w'.entry? key = if c.key = key then some (e.track id c strong) else w.entry? key

/-- A command leaves the witness: an entry that is left was there before, and that of the command's
key no longer tracks it. -/
def Leaves (w : Witness) (id : CommandId) (c : Command) (strong : Bool) (w' : Witness) : Prop :=
  ∀ key e', w'.entry? key = some e' → ∃ e, w.entry? key = some e ∧
    if c.key = key then
      e'.strongWrites = (e.untrack id c strong).strongWrites ∧
        e'.weakWrite = (e.untrack id c strong).weakWrite
    else e' = e

variable {w' : Witness} {c : Command} {strong : Bool}

theorem Enters.strongCount (h : w.Enters id c strong w') (key : Key) :
    w'.strongCount key =
      w.strongCount key + if c.key = key ∧ c.isWrite = true ∧ strong = true then 1 else 0 := by
  obtain ⟨e, hstrong, -, hentry⟩ := h
  rw [Witness.strongCount, hentry]
  by_cases hkey : c.key = key
  · by_cases hwrite : c.isWrite = true ∧ strong = true
    · simp [Entry.track, hstrong, hkey, hwrite]
    · simp [Entry.track, hstrong, hkey, hwrite]
  · simp [Witness.strongCount, hkey]

/-- A weak write that enters takes the place of the one before it. -/
theorem Enters.pendingWeak (h : w.Enters id c strong w') (key : Key) :
    w'.pendingWeak key =
      if c.key = key ∧ c.isWrite = true ∧ strong = false then some (id, c.value)
      else w.pendingWeak key := by
  obtain ⟨e, -, hweak, hentry⟩ := h
  rw [Witness.pendingWeak, hentry]
  by_cases hkey : c.key = key
  · simp [weakWrite_track, hweak, hkey]
  · simp [Witness.pendingWeak, hkey]

theorem strongWrites_untrack (e : Entry) (id : CommandId) (c : Command) (strong : Bool) :
    (e.untrack id c strong).strongWrites =
      e.strongWrites - if c.isWrite = true ∧ strong = true then 1 else 0 := by
  unfold Entry.untrack
  split
  · rename_i hread
    simp [hread]
  · rename_i hwrite
    split
    · rename_i hstrong
      simp [hstrong, Decidable.not_not.1 hwrite]
    · rename_i hweak
      split <;> simp [hweak]

theorem weakWrite_untrack_eq (e : Entry) (id : CommandId) (c : Command) (strong : Bool) :
    (e.untrack id c strong).weakWrite =
      if c.isWrite = true ∧ strong = false ∧ e.weakWrite.map Prod.fst = some id then none
      else e.weakWrite := by
  unfold Entry.untrack
  split
  · rename_i hread
    simp [hread]
  · rename_i hwrite
    split
    · rename_i hstrong
      simp [hstrong]
    · rename_i hweak
      split <;> simp_all

/-- A strong write that leaves is taken out of the count, unless the whole entry goes. -/
theorem Leaves.strongCount (h : w.Leaves id c strong w') {key : Key} {e : Entry}
    (hleft : w'.entry? key = some e) : w'.strongCount key =
      w.strongCount key - if c.key = key ∧ c.isWrite = true ∧ strong = true then 1 else 0 := by
  obtain ⟨e₀, he₀, hsame⟩ := h key e hleft
  by_cases hkey : c.key = key
  · rw [if_pos hkey, strongWrites_untrack] at hsame
    simp [Witness.strongCount, hleft, he₀, hsame.1, hkey]
  · rw [if_neg hkey] at hsame
    simp [Witness.strongCount, hleft, he₀, hsame, hkey]

/-- A weak write that leaves is forgotten if it is the one that the entry has. -/
theorem Leaves.pendingWeak (h : w.Leaves id c strong w') {key : Key} {e : Entry}
    (hleft : w'.entry? key = some e) : w'.pendingWeak key =
      if c.key = key ∧ c.isWrite = true ∧ strong = false ∧
        (w.pendingWeak key).map Prod.fst = some id then none else w.pendingWeak key := by
  obtain ⟨e₀, he₀, hsame⟩ := h key e hleft
  by_cases hkey : c.key = key
  · rw [if_pos hkey, weakWrite_untrack_eq] at hsame
    simp only [Witness.pendingWeak, hleft, he₀, Option.bind_some, hsame.2, hkey, true_and]
  · rw [if_neg hkey] at hsame
    simp [Witness.pendingWeak, hleft, he₀, hsame, hkey]

theorem enters_record (w : Witness) (id : CommandId) (c : Command) (strong : Bool) :
    w.Enters id c strong (w.record id c strong).1 := by
  unfold record
  split
  · rename_i hnone
    refine ⟨⟨1, strong, c.op, c.value, id, 0, none⟩, ?_, ?_, fun key => ?_⟩
    · simp [Witness.strongCount, entry?, hnone]
    · simp [Witness.pendingWeak, entry?, hnone]
    · simp [ entry?, Std.ExtTreeMap.getElem?_insert, Entry.new]
  · rename_i e he
    refine ⟨{ e with slot := e.slot + 1 }, ?_, ?_, fun key => ?_⟩
    · simp [Witness.strongCount, entry?, he]
    · simp [Witness.pendingWeak, entry?, he]
    · simp [ entry?, Std.ExtTreeMap.getElem?_insert]

theorem leaves_retire (w : Witness) (id : CommandId) (c : Command) (strong : Bool) :
    w.Leaves id c strong (w.retire id c strong) := by
  intro key e' he'
  unfold retire at he'
  split at he'
  · rename_i hnone
    refine ⟨e', he', ?_⟩
    rw [if_neg]
    rintro rfl
    rw [ entry?, hnone] at he'
    simp at he'
  · rename_i e he
    dsimp only at he'
    split at he'
    · rw [ entry?, Std.ExtTreeMap.getElem?_erase] at he'
      split at he'
      · simp at he'
      · rename_i hkey
        exact ⟨e', he', by rw [if_neg (by simpa using hkey)]⟩
    · rw [ entry?, Std.ExtTreeMap.getElem?_insert] at he'
      split at he'
      · rename_i hkey
        obtain rfl := Std.LawfulEqOrd.eq_of_compare hkey
        obtain rfl := Option.some.inj he'
        refine ⟨e, he, ?_⟩
        rw [if_pos rfl, strongWrites_untrack, strongWrites_untrack, weakWrite_untrack_eq,
          weakWrite_untrack_eq]
        exact ⟨rfl, rfl⟩
      · rename_i hkey
        exact ⟨e', he', by rw [if_neg (by simpa using hkey)]⟩

/-! ### Verdicts -/

/-- A recorded command gets the verdict that it would have got without being recorded. -/
theorem verdict_record (w : Witness) (id : CommandId) (c : Command) (strong : Bool) :
    (w.record id c strong).2 = w.check c strong := by
  unfold record check
  split <;> rename_i he <;> simp [he]

/-- A strong command is refused while a strong write of its key is pending. -/
theorem ok_check (w : Witness) (c : Command) :
    (w.check c true).ok = if 0 < w.strongCount c.key then .refused else .clear := by
  unfold check strongCount entry?
  cases he : w.unsynced[c.key]? with
  | none => rfl
  | some e => rfl

/-- The verdict on a strong command names the weak write that the entry of its key has. -/
theorem weakDep_check (w : Witness) (c : Command) :
    (w.check c true).weakDep = (w.pendingWeak c.key).map Prod.fst := by
  unfold check pendingWeak entry?
  cases he : w.unsynced[c.key]? with
  | none => rfl
  | some e => rfl

/-! ### Recording and retiring -/

theorem isStrongWrite_eq (x : Witnessed) (key : Key) :
    Witnessed.isStrongWrite key x = true ↔
      x.command.key = key ∧ x.command.isWrite = true ∧ x.strong = true := by
  simp [Witnessed.isStrongWrite, Witnessed.isOn, and_assoc]

theorem CountsStrong.record (h : w.CountsStrong known) (hnew : known[id]? = none) (c : Command)
    (strong : Bool) : (w.record id c strong).1.CountsStrong (known.insert id ⟨c, strong⟩) := by
  intro key
  rw [(enters_record w id c strong).strongCount, h key, Witnessed.count_insert _ hnew]
  simp [isStrongWrite_eq]

theorem CountsStrong.retire (h : w.CountsStrong known) (htallies : w.Tallies known)
    (hx : known[id]? = some x) :
    (w.retire id x.command x.strong).CountsStrong (known.erase id) := by
  intro key
  have hafter := htallies.retire hx
  cases he : Witness.entry? (w.retire id x.command x.strong) key with
  | none =>
      -- no command on the key is left
      have hnone : Witnessed.count (known.erase id) (Witnessed.isOn key) = 0 := by
        rw [← hafter.pendingCount_eq]
        simp [pendingCount, he]
      have hle := Witnessed.count_le (known.erase id) key
      simp [strongCount, he]
      omega
  | some e =>
      rw [(leaves_retire w id x.command x.strong).strongCount he, h key,
        Witnessed.count_erase _ hx]
      simp [isStrongWrite_eq]

end Witness

end WitnessReplication
