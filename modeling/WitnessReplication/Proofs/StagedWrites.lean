import WitnessReplication.Proofs.Mirroring

/-!
# Weak writes that the leader's witness shows

A weak write is staged at the leader when it arrives and has no slot yet, and from its assignment to
the release of its slot it is counted in the entry of its key. The witness keeps one staged write
and one entry per key. It shows a weak write of a key exactly as long as the one staged last has no
slot, or some weak write with a slot has not been released (`Witness.isSome_weakWrite`).

A write that is staged in the place of another hides that one for good: when the later of the two
has been given its slot and is released, the witness shows nothing, although the earlier one still
waits for a slot (`Witness.not_isSome_weakWrite_hidden`).

## Implementation notes

Slots of one key are released in their order. So when the latest slot of a key is released, and its
entry is dropped with all that it holds, no slot of the key is left.
-/

namespace WitnessReplication

namespace Witness

/-- What the leader does to its witness. -/
inductive Call where
  /-- A weak command arrives. -/
  | stage (id : CommandId) (c : Command)
  /-- A command is given the next slot. -/
  | assign (id : CommandId) (c : Command) (strong : Bool)
  /-- The command in a slot has executed. -/
  | release (slot : Slot) (id : CommandId) (c : Command) (strong : Bool)
  deriving DecidableEq, Repr

/-- A leader's witness and the next slot of its counter, with the weak writes that were staged, the
latest one last, the slots that were given out, and those that were released. -/
structure Docket where
  witness : Witness
  next : Slot
  staged : List Request := []
  slots : List (Slot × Request) := []
  released : List Slot := []

namespace Docket

/-- A leader's witness with nothing pending, and a counter. -/
def start (first : Slot) : Docket := { witness := leader, next := first }

/-- The docket after one more call. -/
def take (d : Docket) : Call → Docket
  | .stage id c =>
    { d with
      witness := d.witness.stage id c
      staged := if c.isWrite then d.staged ++ [⟨id, c, true⟩] else d.staged }
  | .assign id c strong =>
    { d with
      witness := (d.witness.assign id c strong d.next).1
      next := d.next + 1
      slots := d.slots ++ [(d.next, ⟨id, c, !strong⟩)] }
  | .release slot id c strong =>
    { d with
      witness := d.witness.release slot id c strong
      released := d.released ++ [slot] }

/-- The docket after a list of calls. -/
def takeAll (d : Docket) (calls : List Call) : Docket := calls.foldl take d

/-- A weak write is staged once, and not after it was given a slot. A weak command is given a slot
as it was staged, and a weak write is given one slot. A slot is released once, with its request, and
after the earlier ones of its key. -/
def Allows (d : Docket) : Call → Prop
  | .stage id c => c.isWrite = true → (∀ q ∈ d.staged, q.id ≠ id) ∧
      ∀ e ∈ d.slots, e.2.weak = true → e.2.command.isWrite = true → e.2.id ≠ id
  | .assign id c strong => strong = false → (∀ q ∈ d.staged, q.id = id → q.command = c) ∧
      (c.isWrite = true →
        ∀ e ∈ d.slots, e.2.weak = true → e.2.command.isWrite = true → e.2.id ≠ id)
  | .release slot id c strong => (slot, ⟨id, c, !strong⟩) ∈ d.slots ∧ slot ∉ d.released ∧
      ∀ e ∈ d.slots, e.2.command.key = c.key → e.1 < slot → e.1 ∈ d.released

/-- Each call is allowed after those before it. -/
def AllowsAll (d : Docket) : List Call → Prop
  | [] => True
  | call :: calls => d.Allows call ∧ (d.take call).AllowsAll calls

/-- The weak write of a key that was staged last. -/
def latest? (d : Docket) (key : Key) : Option Request :=
  (d.staged.filter (Request.isWeakWrite key)).getLast?

/-- A request has been given a slot. -/
def HasSlot (d : Docket) (q : Request) : Prop := q ∈ d.slots.map Prod.snd

/-- A weak write of a key is in a slot that has not been released. -/
def Unreleased (d : Docket) (key : Key) : Prop :=
  ∃ e ∈ d.slots, e.2.isWeakWrite key = true ∧ e.1 ∉ d.released

instance (d : Docket) : (call : Call) → Decidable (d.Allows call)
  | .stage _ _ => inferInstanceAs (Decidable (_ → _ ∧ _))
  | .assign _ _ _ => inferInstanceAs (Decidable (_ → _ ∧ _))
  | .release _ _ _ _ => inferInstanceAs (Decidable (_ ∧ _ ∧ _))

instance decidableAllowsAll (d : Docket) : (calls : List Call) → Decidable (d.AllowsAll calls)
  | [] => isTrue trivial
  | call :: calls =>
    have := decidableAllowsAll (d.take call) calls
    inferInstanceAs (Decidable (_ ∧ _))

instance (d : Docket) (q : Request) : Decidable (d.HasSlot q) :=
  inferInstanceAs (Decidable (_ ∈ _))

/-- The calls so far name each weak write in one way. Slots come from the counter, and those that
were released are among them. -/
structure Coherent (d : Docket) : Prop where
  slot_lt : ∀ e ∈ d.slots, e.1 < d.next
  released_lt : ∀ slot ∈ d.released, slot < d.next
  slot_unique : ∀ e ∈ d.slots, ∀ e' ∈ d.slots, e.1 = e'.1 → e = e'
  write_unique : ∀ e ∈ d.slots, ∀ e' ∈ d.slots, e.2.weak = true → e.2.command.isWrite = true →
    e'.2.weak = true → e'.2.command.isWrite = true → e.2.id = e'.2.id → e = e'
  staged_write : ∀ q ∈ d.staged, q.weak = true ∧ q.command.isWrite = true
  staged_unique : ∀ q ∈ d.staged, ∀ q' ∈ d.staged, q.id = q'.id → q = q'
  staged_named : ∀ q ∈ d.staged, ∀ e ∈ d.slots, e.2.weak = true → e.2.command.isWrite = true →
    q.id = e.2.id → q = e.2

/-- The staged write of a key is the one that was staged last, as long as that has no slot. -/
def Stages (d : Docket) : Prop :=
  ∀ key : Key, d.witness.staged[key]? =
    (d.latest? key).bind fun q => if d.HasSlot q then none else some (q.id, q.command.value)

/-- A request is the weak write of a key in the latest slot with one, and the slot has not been
released. -/
structure LastWrite (d : Docket) (key : Key) (e : Slot × Request) : Prop where
  mem : e ∈ d.slots
  isWeakWrite : e.2.isWeakWrite key = true
  unreleased : e.1 ∉ d.released
  le : ∀ e' ∈ d.slots, e'.2.isWeakWrite key = true → e'.1 ≤ e.1

/-- The entries are those of the slots that have not been released. The entry of a key has the
latest slot of the key, and the weak write in the latest slot with one, if that has not been
released. -/
structure Enters (d : Docket) : Prop where
  entry_none : ∀ key : Key, d.witness.unsynced[key]? = none →
    ∀ e ∈ d.slots, e.2.command.key = key → e.1 ∈ d.released
  entry_slot : ∀ (key : Key) entry, d.witness.unsynced[key]? = some entry →
    entry.slot < d.next ∧ ∀ e ∈ d.slots, e.2.command.key = key → e.1 ≤ entry.slot
  weak_none : ∀ (key : Key) entry, d.witness.unsynced[key]? = some entry →
    entry.weakWrite = none → ¬d.Unreleased key
  weak_some : ∀ (key : Key) entry id value, d.witness.unsynced[key]? = some entry →
    entry.weakWrite = some (id, value) → ∃ e, d.LastWrite key e ∧ e.2.id = id

end Docket

variable {w : Witness} {d : Docket} {id : CommandId} {c : Command} {strong : Bool} {slot : Slot}
variable {call : Call} {calls : List Call} {key : Key}

/-! ### Staging and giving out slots -/

theorem unsynced_stage (w : Witness) (id : CommandId) (c : Command) :
    (w.stage id c).unsynced = w.unsynced := by
  unfold stage
  split <;> rfl

theorem getElem?_staged_stage (w : Witness) (id : CommandId) (c : Command) (key : Key) :
    (w.stage id c).staged[key]? =
      if c.isWrite = true ∧ c.key = key then some (id, c.value) else w.staged[key]? := by
  unfold stage
  split
  · rename_i hwrite
    simp [hwrite, Std.ExtTreeMap.getElem?_insert]
  · rename_i hread
    simp [hread]

theorem unsynced_unstage (w : Witness) (id : CommandId) (key : Key) :
    (w.unstage id key).unsynced = w.unsynced := by
  unfold unstage
  split
  · split <;> rfl
  · rfl

theorem getElem?_staged_unstage (w : Witness) (id : CommandId) (key key' : Key) :
    (w.unstage id key).staged[key']? =
      if key = key' ∧ w.staged[key]?.map Prod.fst = some id then none else w.staged[key']? := by
  unfold unstage
  split
  · rename_i write hwrite
    split
    · rename_i hid
      simp [hwrite, hid, Std.ExtTreeMap.getElem?_erase]
    · rename_i hid
      simp [hwrite, hid]
  · rename_i hnone
    simp [hnone]

theorem staged_assign (w : Witness) (id : CommandId) (c : Command) (strong : Bool) (slot : Slot) :
    (w.assign id c strong slot).1.staged =
      (if strong then w else w.unstage id c.key).staged := by
  unfold assign
  dsimp only
  split
  · rfl
  · split <;> rfl

/-- The entries do not depend on what is staged. -/
theorem unsynced_assign (w : Witness) (id : CommandId) (c : Command) (strong : Bool)
    (slot : Slot) : (w.assign id c strong slot).1.unsynced =
      (assign { w with staged := ∅ } id c strong slot).1.unsynced := by
  have hunsynced : (if strong then w else w.unstage id c.key).unsynced = w.unsynced := by
    split
    · rfl
    · exact unsynced_unstage w id c.key
  have hempty : (if strong then { w with staged := ∅ }
      else unstage { w with staged := ∅ } id c.key) = { w with staged := ∅ } := by
    rw [unstage_of_staged_eq rfl, ite_self]
  unfold assign
  rw [hempty]
  dsimp only
  rw [hunsynced]
  split
  · rfl
  · split <;> rfl

/-! ### What the calls so far say -/

namespace Docket

theorem coherent_start (first : Slot) : (start first).Coherent := by
  constructor <;> simp [start]

theorem mem_slots_assign {e : Slot × Request} :
    e ∈ (d.take (.assign id c strong)).slots ↔ e ∈ d.slots ∨ e = (d.next, ⟨id, c, !strong⟩) := by
  simp [take]

theorem mem_staged_stage {q : Request} : q ∈ (d.take (.stage id c)).staged ↔
    q ∈ d.staged ∨ c.isWrite = true ∧ q = ⟨id, c, true⟩ := by
  simp only [take]
  split
  · rename_i hwrite
    simp [hwrite]
  · rename_i hread
    simp [hread]

namespace Coherent

theorem stage (h : d.Coherent) (hallows : d.Allows (.stage id c)) :
    (d.take (.stage id c)).Coherent where
  slot_lt := h.slot_lt
  released_lt := h.released_lt
  slot_unique := h.slot_unique
  write_unique := h.write_unique
  staged_write q hq := by
    rcases mem_staged_stage.1 hq with hold | ⟨hwrite, rfl⟩
    · exact h.staged_write q hold
    · exact ⟨rfl, hwrite⟩
  staged_unique q hq q' hq' hid := by
    rcases mem_staged_stage.1 hq with hold | ⟨hwrite, rfl⟩
    · rcases mem_staged_stage.1 hq' with hold' | ⟨hwrite, rfl⟩
      · exact h.staged_unique q hold q' hold' hid
      · exact absurd hid ((hallows hwrite).1 q hold)
    · rcases mem_staged_stage.1 hq' with hold' | ⟨-, rfl⟩
      · exact absurd hid.symm ((hallows hwrite).1 q' hold')
      · rfl
  staged_named q hq e he hweak hwrite hid := by
    rcases mem_staged_stage.1 hq with hold | ⟨hnew, rfl⟩
    · exact h.staged_named q hold e he hweak hwrite hid
    · exact absurd hid.symm ((hallows hnew).2 e he hweak hwrite)

theorem assign (h : d.Coherent) (hallows : d.Allows (.assign id c strong)) :
    (d.take (.assign id c strong)).Coherent where
  slot_lt e he := by
    rcases mem_slots_assign.1 he with hold | rfl
    · exact Nat.lt_succ_of_lt (h.slot_lt e hold)
    · exact Nat.lt_succ_self d.next
  released_lt slot hslot := Nat.lt_succ_of_lt (h.released_lt slot hslot)
  slot_unique e he e' he' hslot := by
    rcases mem_slots_assign.1 he with hold | rfl
    · rcases mem_slots_assign.1 he' with hold' | rfl
      · exact h.slot_unique e hold e' hold' hslot
      · exact absurd hslot (Nat.ne_of_lt (h.slot_lt e hold))
    · rcases mem_slots_assign.1 he' with hold' | rfl
      · exact absurd hslot.symm (Nat.ne_of_lt (h.slot_lt e' hold'))
      · rfl
  write_unique e he e' he' hweak hwrite hweak' hwrite' hid := by
    rcases mem_slots_assign.1 he with hold | rfl
    · rcases mem_slots_assign.1 he' with hold' | rfl
      · exact h.write_unique e hold e' hold' hweak hwrite hweak' hwrite' hid
      · exact absurd hid ((hallows (by simpa using hweak')).2 hwrite' e hold hweak hwrite)
    · rcases mem_slots_assign.1 he' with hold' | rfl
      · exact absurd hid.symm ((hallows (by simpa using hweak)).2 hwrite e' hold' hweak' hwrite')
      · rfl
  staged_write := h.staged_write
  staged_unique := h.staged_unique
  staged_named q hq e he hweak hwrite hid := by
    rcases mem_slots_assign.1 he with hold | rfl
    · exact h.staged_named q hq e hold hweak hwrite hid
    · have hcommand := (hallows (by simpa using hweak)).1 q hq hid
      obtain ⟨hqweak, -⟩ := h.staged_write q hq
      cases q
      simp_all

theorem release (h : d.Coherent) (hallows : d.Allows (.release slot id c strong)) :
    (d.take (.release slot id c strong)).Coherent where
  slot_lt := h.slot_lt
  released_lt other hother := by
    rcases List.mem_append.1 hother with hold | hnew
    · exact h.released_lt other hold
    · obtain rfl := List.mem_singleton.1 hnew
      exact h.slot_lt _ hallows.1
  slot_unique := h.slot_unique
  write_unique := h.write_unique
  staged_write := h.staged_write
  staged_unique := h.staged_unique
  staged_named := h.staged_named

theorem take (h : d.Coherent) (hallows : d.Allows call) : (d.take call).Coherent := by
  cases call with
  | stage id c => exact h.stage hallows
  | assign id c strong => exact h.assign hallows
  | release slot id c strong => exact h.release hallows

end Coherent

/-! ### Staged writes -/

theorem latest?_stage : (d.take (.stage id c)).latest? key =
    if c.isWrite = true ∧ c.key = key then some ⟨id, c, true⟩ else d.latest? key := by
  have hkind : Request.isWeakWrite key ⟨id, c, true⟩ = true ↔ c.isWrite = true ∧ c.key = key := by
    rw [Request.isWeakWrite_iff]
    exact and_iff_right rfl
  unfold latest? take
  dsimp only
  by_cases hwrite : c.isWrite = true
  · rw [if_pos hwrite, List.filter_append]
    by_cases hkey : c.key = key
    · rw [List.filter_cons_of_pos (hkind.2 ⟨hwrite, hkey⟩), List.filter_nil,
        if_pos ⟨hwrite, hkey⟩, List.getLast?_concat]
    · rw [List.filter_cons_of_neg fun hnew => hkey (hkind.1 hnew).2, List.filter_nil,
        if_neg fun hboth => hkey hboth.2, List.append_nil]
  · rw [if_neg hwrite, if_neg fun hboth => hwrite hboth.1]

/-- What was staged last for a key is a staged write of that. -/
theorem of_latest? {q : Request} (h : d.latest? key = some q) :
    q ∈ d.staged ∧ q.isWeakWrite key = true :=
  List.mem_filter.1 (List.mem_of_getLast? h)

theorem hasSlot_assign {q : Request} : (d.take (.assign id c strong)).HasSlot q ↔
    d.HasSlot q ∨ q = ⟨id, c, !strong⟩ := by
  simp [HasSlot, take, eq_comm]

theorem stages_start (first : Slot) : (start first).Stages := by
  intro key
  simp [start, leader, latest?]

namespace Stages

theorem stage (h : d.Stages) (hallows : d.Allows (.stage id c)) :
    (d.take (.stage id c)).Stages := by
  intro key
  rw [latest?_stage]
  change (d.witness.stage id c).staged[key]? = _
  rw [getElem?_staged_stage]
  by_cases hnew : c.isWrite = true ∧ c.key = key
  · have hslot : ¬(d.take (.stage id c)).HasSlot ⟨id, c, true⟩ := by
      intro hmem
      obtain ⟨e, he, heq⟩ := List.mem_map.1 hmem
      exact (hallows hnew.1).2 e he (by rw [heq]) (by rw [heq]; exact hnew.1) (by rw [heq])
    rw [if_pos hnew, if_pos hnew, Option.bind_some, if_neg hslot]
  · rw [if_neg hnew, if_neg hnew, h key]
    rfl

/-- A weak write that is given a slot is staged no more. -/
theorem assign (h : d.Stages) (hallows : d.Allows (.assign id c strong)) :
    (d.take (.assign id c strong)).Stages := by
  intro key
  change (d.witness.assign id c strong d.next).1.staged[key]? = (d.latest? key).bind _
  rw [staged_assign]
  cases hlatest : d.latest? key with
  | none =>
      have hnone : d.witness.staged[key]? = none := by simp [h key, hlatest]
      cases strong with
      | true => simpa using hnone
      | false => simp [getElem?_staged_unstage, hnone]
  | some q =>
      obtain ⟨hq, hkind⟩ := of_latest? hlatest
      obtain ⟨hweak, hwrite, rfl⟩ := Request.isWeakWrite_iff.1 hkind
      have hstaged := h q.command.key
      rw [hlatest, Option.bind_some] at hstaged
      rw [Option.bind_some]
      cases strong with
      | true =>
          have hother : q ≠ ⟨id, c, false⟩ := by
            rintro rfl
            simp at hweak
          simp only [hasSlot_assign, Bool.not_true, hother, or_false, if_true]
          exact hstaged
      | false =>
          rw [if_neg (by simp), getElem?_staged_unstage]
          by_cases hid : q.id = id
          · -- the write staged last is the one that is given a slot
            have hcommand := (hallows rfl).1 q hq hid
            have hsame : q = ⟨id, c, !false⟩ := by
              cases q
              simp_all
            rw [if_pos (hasSlot_assign.2 (.inr hsame)), ← hcommand]
            split
            · rfl
            · rename_i hnot
              rw [hstaged] at hnot ⊢
              split
              · rfl
              · rename_i hopen
                exact absurd ⟨rfl, by simp [hopen, hid]⟩ hnot
          · have hother : q ≠ ⟨id, c, !false⟩ := fun heq => hid (by rw [heq])
            have hkept : ¬(c.key = q.command.key ∧
                d.witness.staged[c.key]?.map Prod.fst = some id) := by
              rintro ⟨hkey, hfirst⟩
              rw [hkey, hstaged] at hfirst
              split at hfirst <;> simp [hid] at hfirst
            simp only [hasSlot_assign, hother, or_false]
            rw [if_neg hkept]
            exact hstaged

theorem release (h : d.Stages) : (d.take (.release slot id c strong)).Stages := by
  intro key
  change (d.witness.release slot id c strong).staged[key]? = _
  rw [staged_release]
  exact h key

theorem take (h : d.Stages) (hallows : d.Allows call) : (d.take call).Stages := by
  cases call with
  | stage id c => exact h.stage hallows
  | assign id c strong => exact h.assign hallows
  | release slot id c strong => exact h.release

/-- A write of a key is staged exactly when the one staged last has no slot. -/
theorem isSome_iff (h : d.Stages) (key : Key) : d.witness.staged[key]?.isSome = true ↔
    ∃ q, d.latest? key = some q ∧ ¬d.HasSlot q := by
  rw [h key]
  cases d.latest? key with
  | none => simp
  | some q => by_cases hslot : d.HasSlot q <;> simp [hslot]

end Stages

/-! ### Entries -/

/-- An entry loses its weak write only to the release of that. -/
theorem weakWrite_untrack_eq_none {entry : Entry} {write : CommandId × Value}
    (hwrite : entry.weakWrite = some write)
    (hnone : (entry.untrack id c strong).weakWrite = none) :
    c.isWrite = true ∧ strong = false ∧ write.1 = id := by
  unfold Entry.untrack at hnone
  split at hnone
  · simp [hwrite] at hnone
  · rename_i hput
    split at hnone
    · simp [hwrite] at hnone
    · rename_i hweak
      split at hnone
      · rename_i hid
        rw [hwrite, Option.map_some] at hid
        exact ⟨not_not.1 hput, by simpa using hweak, Option.some.inj hid⟩
      · simp [hwrite] at hnone

/-- A weak write in a slot is in it from before, or is what was given the slot just now. -/
theorem weak_of_assign {e : Slot × Request} (he : e ∈ (d.take (.assign id c strong)).slots)
    (hkind : e.2.isWeakWrite key = true) : e ∈ d.slots ∨
      (c.isWrite = true ∧ strong = false) ∧ c.key = key ∧ e = (d.next, ⟨id, c, !strong⟩) := by
  rcases mem_slots_assign.1 he with hold | rfl
  · exact .inl hold
  · obtain ⟨hweak, hwrite, hkey⟩ := Request.isWeakWrite_iff.1 hkind
    exact .inr ⟨⟨hwrite, by simpa using hweak⟩, hkey, rfl⟩

/-- An entry that is left after a release was there before, and what was released is taken out of
the counts of its key. -/
theorem entry_of_release {entry : Entry}
    (hentry : (d.witness.release slot id c strong).unsynced[key]? = some entry) :
    ∃ old, d.witness.unsynced[key]? = some old ∧ entry.slot = old.slot ∧
      entry = if c.key = key then old.untrack id c strong else old := by
  rw [getElem?_release] at hentry
  split at hentry
  · rename_i hkey
    obtain ⟨old, hold, hentry⟩ := Option.bind_eq_some_iff.1 hentry
    split at hentry
    · simp at hentry
    · obtain rfl := Option.some.inj hentry
      exact ⟨old, hold, slot_untrack old id c strong, (if_pos hkey).symm⟩
  · rename_i hne
    exact ⟨entry, hentry, rfl, (if_neg hne).symm⟩

theorem mem_released_release {other : Slot} :
    other ∈ (d.take (.release slot id c strong)).released ↔
      other ∈ d.released ∨ other = slot := by
  simp [take]

namespace LastWrite

variable {e : Slot × Request}

theorem stage (h : d.LastWrite key e) : (d.take (.stage id c)).LastWrite key e where
  mem := h.mem
  isWeakWrite := h.isWeakWrite
  unreleased := h.unreleased
  le := h.le

/-- A weak write in a new slot is the latest one of its key. -/
theorem new (h : d.Coherent) (hwrite : c.isWrite = true) :
    (d.take (.assign id c false)).LastWrite c.key (d.next, ⟨id, c, true⟩) where
  mem := mem_slots_assign.2 (.inr rfl)
  isWeakWrite := Request.isWeakWrite_iff.2 ⟨rfl, hwrite, rfl⟩
  unreleased hmem := (h.released_lt _ hmem).false
  le e he _ := by
    rcases mem_slots_assign.1 he with hold | rfl
    · exact Nat.le_of_lt (h.slot_lt e hold)
    · exact le_rfl

/-- The latest weak write stays the latest one unless a new one takes its place. -/
theorem assign (h : d.LastWrite key e)
    (hnot : ¬((c.isWrite = true ∧ strong = false) ∧ c.key = key)) :
    (d.take (.assign id c strong)).LastWrite key e where
  mem := mem_slots_assign.2 (.inl h.mem)
  isWeakWrite := h.isWeakWrite
  unreleased := h.unreleased
  le e' he' hkind := by
    rcases weak_of_assign he' hkind with hold | ⟨hnew, hkey, -⟩
    · exact h.le e' hold hkind
    · exact absurd ⟨hnew, hkey⟩ hnot

theorem release (h : d.LastWrite key e) (hne : e.1 ≠ slot) :
    (d.take (.release slot id c strong)).LastWrite key e where
  mem := h.mem
  isWeakWrite := h.isWeakWrite
  unreleased hmem := (mem_released_release.1 hmem).elim h.unreleased hne
  le := h.le

/-- Once the latest weak write of a key is released, none of the key is left. -/
theorem not_unreleased (h : d.LastWrite key (slot, ⟨id, c, !strong⟩))
    (hallows : d.Allows (.release slot id c strong)) :
    ¬(d.take (.release slot id c strong)).Unreleased key := by
  rintro ⟨e, he, hkind, hopen⟩
  rw [mem_released_release, not_or] at hopen
  have hkey : e.2.command.key = c.key :=
    (Request.isWeakWrite_iff.1 hkind).2.2.trans (Request.isWeakWrite_iff.1 h.isWeakWrite).2.2.symm
  rcases Nat.lt_or_eq_of_le (h.le e he hkind) with hlt | heq
  · exact hopen.1 (hallows.2.2 e he hkey hlt)
  · exact hopen.2 heq

end LastWrite

theorem enters_start (first : Slot) : (start first).Enters := by
  constructor <;> simp [start, leader]

namespace Enters

/-- The entry of a key holds a weak write exactly when one of the key has not been released. -/
theorem isSome_iff (h : d.Enters) (key : Key) :
    (d.witness.unsynced[key]?.bind Entry.weakWrite).isSome = true ↔ d.Unreleased key := by
  cases hentry : d.witness.unsynced[key]? with
  | none =>
      refine iff_of_false (by simp) ?_
      rintro ⟨e, he, hkind, hopen⟩
      exact hopen (h.entry_none key hentry e he (Request.isWeakWrite_iff.1 hkind).2.2)
  | some entry =>
      rw [Option.bind_some]
      cases hweak : entry.weakWrite with
      | none => exact iff_of_false (by simp) (h.weak_none key entry hentry hweak)
      | some write =>
          obtain ⟨e, hlast, -⟩ := h.weak_some key entry write.1 write.2 hentry hweak
          exact iff_of_true rfl ⟨e, hlast.mem, hlast.isWeakWrite, hlast.unreleased⟩

theorem stage (h : d.Enters) : (d.take (.stage id c)).Enters := by
  have hunsynced : (d.take (.stage id c)).witness.unsynced = d.witness.unsynced :=
    unsynced_stage d.witness id c
  constructor
  case entry_none =>
    intro key hkey
    rw [hunsynced] at hkey
    exact h.entry_none key hkey
  case entry_slot =>
    intro key entry hkey
    rw [hunsynced] at hkey
    exact h.entry_slot key entry hkey
  case weak_none =>
    intro key entry hkey
    rw [hunsynced] at hkey
    exact h.weak_none key entry hkey
  case weak_some =>
    intro key entry id' value hkey hwrite
    rw [hunsynced] at hkey
    obtain ⟨e, hlast, hid⟩ := h.weak_some key entry id' value hkey hwrite
    exact ⟨e, hlast.stage, hid⟩

theorem assign (h : d.Enters) (hcoherent : d.Coherent) :
    (d.take (.assign id c strong)).Enters := by
  obtain ⟨w', entry', hassign, -, -, hslot, hweak, hother⟩ :=
    assign_spec (w := { d.witness with staged := ∅ }) rfl id c strong
      fun entry hentry => Nat.le_of_lt (h.entry_slot c.key entry hentry).1
  have hentry : ∀ key : Key, (d.take (.assign id c strong)).witness.unsynced[key]? =
      if c.key = key then some entry' else d.witness.unsynced[key]? := by
    intro key
    change (d.witness.assign id c strong d.next).1.unsynced[key]? = _
    rw [unsynced_assign, hassign]
    exact hother key
  constructor
  case entry_none =>
    intro key hnone e he hkey
    rw [hentry] at hnone
    split at hnone
    · simp at hnone
    · rename_i hne
      rcases mem_slots_assign.1 he with hold | rfl
      · exact h.entry_none key hnone e hold hkey
      · exact absurd hkey hne
  case entry_slot =>
    intro key entry hsome
    rw [hentry] at hsome
    split at hsome
    · obtain rfl := Option.some.inj hsome
      rw [hslot]
      refine ⟨Nat.lt_succ_self d.next, fun e he hkey => ?_⟩
      rcases mem_slots_assign.1 he with hold | rfl
      · exact Nat.le_of_lt (hcoherent.slot_lt e hold)
      · exact le_rfl
    · rename_i hne
      obtain ⟨hlt, hle⟩ := h.entry_slot key entry hsome
      refine ⟨Nat.lt_succ_of_lt hlt, fun e he hkey => ?_⟩
      rcases mem_slots_assign.1 he with hold | rfl
      · exact hle e hold hkey
      · exact absurd hkey hne
  case weak_none =>
    rintro key entry hsome hnone ⟨e, he, hkind, hopen⟩
    rw [hentry] at hsome
    split at hsome
    · rename_i hkey
      obtain rfl := Option.some.inj hsome
      rw [hweak] at hnone
      rcases weak_of_assign he hkind with hold | ⟨hnew, -, -⟩
      · split at hnone
        · simp at hnone
        · rw [hkey] at hnone
          have hshown := (h.isSome_iff key).2 ⟨e, hold, hkind, hopen⟩
          simp [hnone] at hshown
      · simp [hnew] at hnone
    · rename_i hne
      rcases weak_of_assign he hkind with hold | ⟨-, hkey, -⟩
      · exact h.weak_none key entry hsome hnone ⟨e, hold, hkind, hopen⟩
      · exact hne hkey
  case weak_some =>
    intro key entry id' value hsome hwrite
    rw [hentry] at hsome
    split at hsome
    · rename_i hkey
      obtain rfl := Option.some.inj hsome
      rw [hweak] at hwrite
      split at hwrite
      · rename_i hnew
        obtain ⟨rfl, rfl⟩ := Prod.mk.inj (Option.some.inj hwrite)
        obtain rfl := hnew.2
        exact ⟨_, hkey ▸ LastWrite.new hcoherent hnew.1, rfl⟩
      · rename_i hnot
        obtain ⟨old, hold, hwrite⟩ := Option.bind_eq_some_iff.1 hwrite
        obtain ⟨e, hlast, hid⟩ := h.weak_some key old id' value (hkey ▸ hold) hwrite
        exact ⟨e, hlast.assign fun hboth => hnot hboth.1, hid⟩
    · rename_i hne
      obtain ⟨e, hlast, hid⟩ := h.weak_some key entry id' value hsome hwrite
      exact ⟨e, hlast.assign fun hboth => hne hboth.2, hid⟩

/-- The latest weak write in a slot is no longer in the entry of its key once it is released, and
another one stays in it. -/
theorem release (h : d.Enters) (hcoherent : d.Coherent)
    (hallows : d.Allows (.release slot id c strong)) :
    (d.take (.release slot id c strong)).Enters := by
  have hmem : (slot, ⟨id, c, !strong⟩) ∈ d.slots := hallows.1
  constructor
  case entry_none =>
    intro key hnone e he hkey
    change (d.witness.release slot id c strong).unsynced[key]? = none at hnone
    rw [getElem?_release] at hnone
    refine mem_released_release.2 ?_
    cases hentry : d.witness.unsynced[key]? with
    | none => exact .inl (h.entry_none key hentry e he hkey)
    | some entry =>
        rw [hentry, Option.bind_some] at hnone
        split at hnone
        · rename_i hown
          split at hnone
          · rename_i hslot
            rcases Nat.lt_or_eq_of_le ((h.entry_slot key entry hentry).2 e he hkey) with hlt | heq
            · exact .inl (hallows.2.2 e he (hkey.trans hown.symm) (hslot ▸ hlt))
            · exact .inr (heq.trans hslot)
          · simp at hnone
        · simp at hnone
  case entry_slot =>
    intro key entry hentry
    obtain ⟨old, hold, hslot, -⟩ := entry_of_release hentry
    rw [hslot]
    exact h.entry_slot key old hold
  case weak_none =>
    intro key entry hentry hnone
    obtain ⟨old, hold, -, rfl⟩ := entry_of_release hentry
    cases hwrite : old.weakWrite with
    | none =>
        rintro ⟨e, he, hkind, hopen⟩
        exact h.weak_none key old hold hwrite
          ⟨e, he, hkind, fun hdone => hopen (mem_released_release.2 (.inl hdone))⟩
    | some write =>
        obtain ⟨e, hlast, hid⟩ := h.weak_some key old write.1 write.2 hold hwrite
        -- the entry has lost its weak write, so that is the one in the released slot
        have hsame : e = (slot, ⟨id, c, !strong⟩) := by
          split at hnone
          · obtain ⟨hput, hweak, hown⟩ := weakWrite_untrack_eq_none hwrite hnone
            obtain ⟨hweak', hput', -⟩ := Request.isWeakWrite_iff.1 hlast.isWeakWrite
            exact hcoherent.write_unique e hlast.mem _ hmem hweak' hput' (by simp [hweak]) hput
              (hid.trans hown)
          · simp [hwrite] at hnone
        exact (hsame ▸ hlast).not_unreleased hallows
  case weak_some =>
    intro key entry id' value hentry hwrite
    obtain ⟨old, hold, -, rfl⟩ := entry_of_release hentry
    have hkept : old.weakWrite = some (id', value) ∧
        (c.key = key → c.isWrite = true → strong = false → id' ≠ id) := by
      split at hwrite
      · obtain ⟨hwrite, hne⟩ := weakWrite_untrack hwrite
        exact ⟨hwrite, fun _ => hne⟩
      · rename_i hother
        exact ⟨hwrite, fun hkey => absurd hkey hother⟩
    obtain ⟨e, hlast, hid⟩ := h.weak_some key old id' value hold hkept.1
    refine ⟨e, hlast.release fun hslot => ?_, hid⟩
    obtain rfl : e = (slot, ⟨id, c, !strong⟩) := hcoherent.slot_unique e hlast.mem _ hmem hslot
    obtain ⟨hweak, hput, hkey⟩ := Request.isWeakWrite_iff.1 hlast.isWeakWrite
    exact hkept.2 hkey hput (by simpa using hweak) hid.symm

theorem take (h : d.Enters) (hcoherent : d.Coherent) (hallows : d.Allows call) :
    (d.take call).Enters := by
  cases call with
  | stage id c => exact h.stage
  | assign id c strong => exact h.assign hcoherent
  | release slot id c strong => exact h.release hcoherent hallows

end Enters

/-! ### What the witness shows -/

/-- What holds of a docket after any list of calls. -/
theorem holds_takeAll (hcoherent : d.Coherent) (hstages : d.Stages) (henters : d.Enters)
    (hallows : d.AllowsAll calls) :
    (d.takeAll calls).Stages ∧ (d.takeAll calls).Enters := by
  induction calls generalizing d with
  | nil => exact ⟨hstages, henters⟩
  | cons call calls ih =>
      exact ih (hcoherent.take hallows.1) (hstages.take hallows.1)
        (henters.take hcoherent hallows.1) hallows.2

end Docket

open Docket in
/-- A weak write of a key is shown exactly as long as the one that was staged last has no slot, or
some weak write of the key is in a slot that has not been released. -/
theorem isSome_weakWrite (first : Slot) (calls : List Call)
    (hallows : (start first).AllowsAll calls) (key : Key) :
    (((start first).takeAll calls).witness.weakWrite key).isSome = true ↔
      (∃ q, ((start first).takeAll calls).latest? key = some q ∧
        ¬((start first).takeAll calls).HasSlot q) ∨
      ((start first).takeAll calls).Unreleased key := by
  obtain ⟨hstages, henters⟩ :=
    holds_takeAll (coherent_start first) (stages_start first) (enters_start first) hallows
  rw [weakWrite, Option.isSome_or, Bool.or_eq_true, henters.isSome_iff, hstages.isSome_iff]

/-- A write is staged, a write of the key by another client is staged over it and given its slot,
and that slot is released. -/
def hidingCalls : List Call :=
  [.stage ⟨1, 0⟩ ⟨.put, 1, ⟨[97]⟩⟩, .stage ⟨2, 0⟩ ⟨.put, 1, ⟨[98]⟩⟩,
    .assign ⟨2, 0⟩ ⟨.put, 1, ⟨[98]⟩⟩ false, .release 0 ⟨2, 0⟩ ⟨.put, 1, ⟨[98]⟩⟩ false]

open Docket in
/-- As long as the later of the two writes has not been released, the witness shows one. -/
theorem isSome_weakWrite_hidingCalls :
    (start 0).AllowsAll (hidingCalls.take 3) ∧
      ((start 0).takeAll (hidingCalls.take 3)).witness.weakWrite 1 = some (⟨2, 0⟩, ⟨[98]⟩) ∧
      ((start 0).takeAll (hidingCalls.take 3)).Unreleased 1 := by
  have hallows : (start 0).AllowsAll (hidingCalls.take 3) := by decide +kernel
  have hshown : ((start 0).takeAll (hidingCalls.take 3)).witness.weakWrite 1 =
      some (⟨2, 0⟩, ⟨[98]⟩) := by decide +kernel
  have hnamed : ((start 0).takeAll (hidingCalls.take 3)).latest? 1 =
      some ⟨⟨2, 0⟩, ⟨.put, 1, ⟨[98]⟩⟩, true⟩ := by decide +kernel
  refine ⟨hallows, hshown, ?_⟩
  rcases (isSome_weakWrite 0 _ hallows 1).1 (by rw [hshown]; rfl) with ⟨q, hq, hopen⟩ | hopen
  · obtain rfl := Option.some.inj (hq.symm.trans hnamed)
    exact absurd (by decide +kernel) hopen
  · exact hopen

open Docket in
/-- A weak write is not shown until its slot is released: once the slot of the one staged over it
has been released, the witness shows none. -/
theorem not_isSome_weakWrite_hidden :
    ¬∀ (first : Slot) (calls : List Call), (start first).AllowsAll calls → ∀ key : Key,
      ((((start first).takeAll calls).witness.weakWrite key).isSome = true ↔
        (∃ q ∈ ((start first).takeAll calls).staged, q.isWeakWrite key = true ∧
          ¬((start first).takeAll calls).HasSlot q) ∨
        ((start first).takeAll calls).Unreleased key) := by
  intro hvisible
  have hshown := (hvisible 0 hidingCalls (by decide +kernel) 1).2
    (.inl ⟨⟨⟨1, 0⟩, ⟨.put, 1, ⟨[97]⟩⟩, true⟩, by decide +kernel⟩)
  have hnone : ((start 0).takeAll hidingCalls).witness.weakWrite 1 = none := by decide +kernel
  rw [hnone] at hshown
  simp at hshown

end Witness

end WitnessReplication
