import WitnessReplication.Proofs.Log

/-!
# The leader's witness and the log

The leader's witness tracks the part of the log that has not executed: the entry of a key holds
the latest unexecuted slot of that key, so that a key without an entry has none, and the weak
write of an entry is that of an unexecuted slot. Giving a request the next slot and executing the
first unexecuted slot both keep it so.
-/

namespace WitnessReplication

variable {log log' : Log} {slot executed : Slot}

/-- A request of a kind has a slot that has not executed. -/
def Log.Awaits (log : Log) (executed : Slot) (p : Request → Prop) : Prop :=
  ∃ slot q, log.request? slot = some q ∧ executed ≤ slot ∧ p q

theorem Log.Awaits.mono {p : Request → Prop} (h : log.Awaits executed p) (hlog : log <+: log') :
    log'.Awaits executed p := by
  obtain ⟨slot, q, hq, hrest⟩ := h
  exact ⟨slot, q, Log.request?_mono hlog hq, hrest⟩

/-- Executing one slot leaves the requests of a kind that is not that slot's awaited. -/
theorem Log.Awaits.succ {p : Request → Prop} {q : Request} (h : log.Awaits executed p)
    (hq : log.request? executed = some q) (hother : ¬p q) : log.Awaits (executed + 1) p := by
  obtain ⟨slot, q', hq', hle, hp⟩ := h
  refine ⟨slot, q', hq', Nat.lt_of_le_of_ne hle ?_, hp⟩
  rintro rfl
  obtain rfl : q' = q := Option.some.inj (hq'.symm.trans hq)
  exact hother hp

namespace Witness

variable {w : Witness}

/-- The entries of a leader's witness are those of the unexecuted slots of a log. -/
structure Tracks (log : Log) (executed : Slot) (w : Witness) : Prop where
  isLeader : w.isLeader = true
  staged_eq : w.staged = ∅
  entry_sound : ∀ {key : Key} {e}, w.unsynced[key]? = some e →
    executed ≤ e.slot ∧ ∃ q, log.request? e.slot = some q ∧ q.command.key = key
  entry_complete : ∀ {slot q}, log.request? slot = some q → executed ≤ slot →
    ∃ e, w.unsynced[q.command.key]? = some e ∧ slot ≤ e.slot
  weakWrite_sound : ∀ {key : Key} {e id value}, w.unsynced[key]? = some e →
    e.weakWrite = some (id, value) →
    log.Awaits executed fun q => q.id = id ∧ q.weak = true ∧ q.command.Writes key value

/-- The witness of a leader without requests tracks the empty log. -/
theorem tracks_leader : leader.Tracks [] 0 where
  isLeader := rfl
  staged_eq := rfl
  entry_sound h := by simp [leader] at h
  entry_complete h := by simp [Log.request?] at h
  weakWrite_sound h := by simp [leader] at h

/-! ### Giving a request a slot -/

theorem unstage_of_staged_eq (h : w.staged = ∅) (id : CommandId) (key : Key) :
    w.unstage id key = w := by
  simp [unstage, h]

/-- What was staged with nothing else staged is unstaged by its own request. -/
theorem unstage_stage (h : w.staged = ∅) (id : CommandId) (c : Command) :
    (w.stage id c).unstage id c.key = w := by
  unfold stage
  split
  · have herase : (w.staged.insert c.key (id, c.value)).erase c.key = w.staged := by
      rw [h]
      apply Std.ExtTreeMap.ext_getElem?
      intro key
      rw [Std.ExtTreeMap.getElem?_erase, Std.ExtTreeMap.getElem?_insert]
      split <;> simp
    simp [unstage, herase]
  · exact unstage_of_staged_eq h id c.key

/-- Staging a weak write first makes no difference to giving it a slot. -/
theorem assign_stage (h : w.staged = ∅) (id : CommandId) (c : Command) (slot : Slot) :
    (w.stage id c).assign id c false slot = w.assign id c false slot := by
  simp only [assign, Bool.false_eq_true, if_false, unstage_stage h, unstage_of_staged_eq h]

/-- A command becomes the latest weak write of a key if it is one. -/
theorem weakWrite_track (e : Entry) (id : CommandId) (c : Command) (strong : Bool) :
    (e.track id c strong).weakWrite =
      if c.isWrite ∧ strong = false then some (id, c.value) else e.weakWrite := by
  simp [Entry.track]

/-- A slot that no entry exceeds is given, and only the entry of the command's key changes. -/
theorem assign_spec (hstaged : w.staged = ∅) (id : CommandId) (c : Command) (strong : Bool)
    (hslot : ∀ e, w.unsynced[c.key]? = some e → e.slot ≤ slot) :
    ∃ w' e', w.assign id c strong slot = (w', .ok (w.unsynced[c.key]?.map Entry.slot)) ∧
      w'.isLeader = w.isLeader ∧ w'.staged = ∅ ∧ e'.slot = slot ∧
      e'.weakWrite = (if c.isWrite ∧ strong = false then some (id, c.value)
        else w.unsynced[c.key]?.bind Entry.weakWrite) ∧
      ∀ key : Key, w'.unsynced[key]? = if c.key = key then some e' else w.unsynced[key]? := by
  have hunstage : (if strong then w else w.unstage id c.key) = w := by
    rw [unstage_of_staged_eq hstaged, ite_self]
  let put (e' : Entry) : Witness := { w with unsynced := w.unsynced.insert c.key e' }
  have hentry : ∀ e' (key : Key), (put e').unsynced[key]? =
      if c.key = key then some e' else w.unsynced[key]? := by
    intro e' key
    simp [put, Std.ExtTreeMap.getElem?_insert]
  unfold assign
  rw [hunstage]
  dsimp only
  cases he : w.unsynced[c.key]? with
  | none =>
      refine ⟨put (.new slot id c strong), _, rfl, rfl, hstaged, rfl, ?_, hentry _⟩
      simp [Entry.new, weakWrite_track]
  | some e =>
      have hle := hslot e he
      refine ⟨put ({ e with slot := slot }.track id c strong), _, ?_, rfl, hstaged, rfl, ?_,
        hentry _⟩
      · dsimp only
        rw [if_neg (Nat.not_lt.2 hle)]
        rfl
      · simp [weakWrite_track]

namespace Tracks

theorem slot_lt_length (h : w.Tracks log executed) {key : Key} {e : Entry}
    (he : w.unsynced[key]? = some e) : e.slot < log.length := by
  obtain ⟨-, q, hq, -⟩ := h.entry_sound he
  exact Log.lt_length_of_request? hq

/-- The next slot is given to any request, with the latest unexecuted slot of its key as what it
depends on, and the witness then tracks the longer log. A strong request is no weak write. -/
theorem assign (h : w.Tracks log executed) (a : Assignment) (hexec : executed ≤ log.length) :
    ∃ w', w.assign a.id a.command (!a.weak) log.length =
        (w', .ok (w.unsynced[a.command.key]?.map Entry.slot)) ∧
      w'.Tracks (log ++ [a]) executed ∧
      (a.weak = false → ∀ key, w'.weakWrite key = w.weakWrite key) := by
  obtain ⟨w', e', hassign, hleader, hstaged, hslot, hweak, hentry⟩ :=
    assign_spec h.staged_eq a.id a.command (!a.weak)
      fun e he => Nat.le_of_lt (h.slot_lt_length he)
  have hprefix : log <+: log ++ [a] := List.prefix_append log [a]
  have hnew := Log.request?_append_self log a
  refine ⟨w', hassign, ?_, ?_⟩
  case refine_2 =>
    intro hstrong key
    rw [weakWrite, weakWrite, hstaged, h.staged_eq, hentry]
    split
    · rename_i hkey
      simp [hweak, hstrong, hkey]
    · rfl
  constructor
  case isLeader => rw [hleader, h.isLeader]
  case staged_eq => exact hstaged
  case entry_sound =>
    intro key e he
    rw [hentry] at he
    split at he
    · rename_i hkey
      obtain rfl : e' = e := Option.some.inj he
      rw [hslot]
      exact ⟨hexec, a.toRequest, hnew, hkey⟩
    · obtain ⟨hle, q, hq, hkey⟩ := h.entry_sound he
      exact ⟨hle, q, Log.request?_mono hprefix hq, hkey⟩
  case entry_complete =>
    intro slot q hq hle
    rcases Log.request?_append_eq_some hq with hold | ⟨rfl, rfl⟩
    · obtain ⟨e, he, hle'⟩ := h.entry_complete hold hle
      by_cases hkey : a.command.key = q.command.key
      · refine ⟨e', by rw [hentry, if_pos hkey], ?_⟩
        rw [hslot]
        exact Nat.le_of_lt (Log.lt_length_of_request? hold)
      · exact ⟨e, by rw [hentry, if_neg hkey, he], hle'⟩
    · exact ⟨e', by rw [hentry, if_pos rfl], Nat.le_of_eq hslot.symm⟩
  case weakWrite_sound =>
    intro key e id value he hwrite
    rw [hentry] at he
    split at he
    · rename_i hkey
      obtain rfl : e' = e := Option.some.inj he
      rw [hweak] at hwrite
      split at hwrite
      · rename_i hown
        obtain ⟨rfl, rfl⟩ : a.id = id ∧ a.command.value = value := by simpa using hwrite
        exact ⟨log.length, a.toRequest, hnew, hexec, rfl, by simpa using hown.2,
          hkey ▸ Command.writes_of_isWrite hown.1⟩
      · obtain ⟨e, he, hwrite⟩ := Option.bind_eq_some_iff.1 hwrite
        exact hkey ▸ (h.weakWrite_sound he hwrite).mono hprefix
    · exact (h.weakWrite_sound he hwrite).mono hprefix

end Tracks

/-! ### Executing a slot -/

theorem slot_untrack (e : Entry) (id : CommandId) (c : Command) (strong : Bool) :
    (e.untrack id c strong).slot = e.slot := by
  unfold Entry.untrack
  split
  · rfl
  · split
    · rfl
    · split <;> rfl

/-- The weak write that stays is the one from before, and not the executed command. -/
theorem weakWrite_untrack {e : Entry} {id id' : CommandId} {c : Command} {strong : Bool}
    {value : Value} (h : (e.untrack id c strong).weakWrite = some (id', value)) :
    e.weakWrite = some (id', value) ∧ (c.isWrite = true → strong = false → id' ≠ id) := by
  unfold Entry.untrack at h
  split at h
  · rename_i hread
    exact ⟨h, fun hw => absurd hw hread⟩
  · split at h
    · rename_i hstrong
      exact ⟨h, fun _ hweak => by simp [hweak] at hstrong⟩
    · split at h
      · simp at h
      · rename_i hne
        refine ⟨h, fun _ _ hid => hne ?_⟩
        rw [h, hid]
        rfl

theorem getElem?_release (w : Witness) (slot : Slot) (id : CommandId) (c : Command) (strong : Bool)
    (key : Key) :
    (w.release slot id c strong).unsynced[key]? =
      if c.key = key then w.unsynced[key]?.bind fun e =>
        if e.slot = slot then none else some (e.untrack id c strong)
      else w.unsynced[key]? := by
  unfold release
  split
  · rename_i hnone
    split
    · rename_i hkey
      simp [← hkey, hnone]
    · rfl
  · rename_i e he
    split
    · rename_i hslot
      simp only [Std.ExtTreeMap.getElem?_erase, Std.compare_eq_iff_eq]
      split
      · rename_i hkey
        simp [← hkey, he, hslot]
      · rfl
    · rename_i hslot
      simp only [Std.ExtTreeMap.getElem?_insert, Std.compare_eq_iff_eq]
      split
      · rename_i hkey
        simp [← hkey, he, hslot]
      · rfl

theorem isLeader_release (w : Witness) (slot : Slot) (id : CommandId) (c : Command)
    (strong : Bool) : (w.release slot id c strong).isLeader = w.isLeader := by
  unfold release
  split
  · rfl
  · split <;> rfl

theorem staged_release (w : Witness) (slot : Slot) (id : CommandId) (c : Command)
    (strong : Bool) : (w.release slot id c strong).staged = w.staged := by
  unfold release
  split
  · rfl
  · split <;> rfl

/-- The witness tracks what is left once the first unexecuted slot has executed. -/
theorem Tracks.release (h : w.Tracks log executed) {q : Request}
    (hq : log.request? executed = some q) :
    (w.release executed q.id q.command (!q.weak)).Tracks log (executed + 1) := by
  have hentry := getElem?_release w executed q.id q.command (!q.weak)
  -- an entry that is left comes from one of a later slot
  have hold : ∀ {key : Key} {e},
      (w.release executed q.id q.command (!q.weak)).unsynced[key]? = some e →
      ∃ e₀, w.unsynced[key]? = some e₀ ∧ e.slot = e₀.slot ∧ executed < e.slot ∧
        ∀ id value, e.weakWrite = some (id, value) → e₀.weakWrite = some (id, value) ∧
          (q.command.key = key → q.command.isWrite = true → q.weak = true → id ≠ q.id) := by
    intro key e he
    rw [hentry] at he
    split at he
    · obtain ⟨e₀, he₀, he⟩ := Option.bind_eq_some_iff.1 he
      split at he
      · simp at he
      · rename_i hne
        obtain rfl := Option.some.inj he
        refine ⟨e₀, he₀, slot_untrack .., ?_, ?_⟩
        · rw [slot_untrack]
          exact Nat.lt_of_le_of_ne (h.entry_sound he₀).1 (Ne.symm hne)
        · intro id value hwrite
          obtain ⟨hwrite, hne⟩ := weakWrite_untrack hwrite
          exact ⟨hwrite, fun _ hw hweak => hne hw (by simp [hweak])⟩
    · rename_i hkey
      obtain ⟨hle, q', hq', hkey'⟩ := h.entry_sound he
      refine ⟨e, he, rfl, Nat.lt_of_le_of_ne hle ?_, fun _ _ hwrite =>
        ⟨hwrite, fun heq => absurd heq hkey⟩⟩
      intro heq
      rw [← heq] at hq'
      obtain rfl : q = q' := Option.some.inj (hq.symm.trans hq')
      exact hkey hkey'
  constructor
  case isLeader => rw [isLeader_release, h.isLeader]
  case staged_eq => rw [staged_release, h.staged_eq]
  case entry_sound =>
    intro key e he
    obtain ⟨e₀, he₀, hslot, hlt, -⟩ := hold he
    exact ⟨hlt, hslot ▸ (h.entry_sound he₀).2⟩
  case entry_complete =>
    intro slot q' hq' hlt
    obtain ⟨e, he, hle⟩ := h.entry_complete hq' (Nat.le_of_lt hlt)
    rw [hentry, he]
    split
    · have hne : e.slot ≠ executed := Nat.ne_of_gt (Nat.lt_of_lt_of_le hlt hle)
      refine ⟨_, by rw [Option.bind_some, if_neg hne], ?_⟩
      rwa [slot_untrack]
    · exact ⟨e, rfl, hle⟩
  case weakWrite_sound =>
    intro key e id value he hwrite
    obtain ⟨e₀, he₀, -, -, hkept⟩ := hold he
    obtain ⟨hwrite, hne⟩ := hkept id value hwrite
    refine (h.weakWrite_sound he₀ hwrite).succ hq ?_
    rintro ⟨rfl, hweak, hwrites⟩
    have hkey : q.command.key = key := by rw [hwrites]
    have hput : q.command.isWrite = true := by rw [hwrites]; rfl
    exact hne hkey hput hweak rfl

end Witness

end WitnessReplication
