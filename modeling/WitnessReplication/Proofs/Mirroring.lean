import WitnessReplication.Proofs.Surfacing

/-!
# What the leader's witness counts

The leader's witness counts, per key, the strong writes in the slots that have not executed, and
has the latest weak write in these slots (`Witness.Mirrors`). Giving a request the next slot and
executing the first unexecuted slot both keep it so.

## Implementation notes

When the latest slot of a key executes, its entry is dropped with all that it counts. That loses
nothing because slots execute in order, so that no unexecuted slot of the key is left. An entry that
stays forgets its weak write when a weak write with that id executes, so that no other request in
the log may have the id.
-/

namespace WitnessReplication

variable {log : Log} {executed slot : Slot} {q : Request} {key : Key}

/-- Whether a request is a strong write of a key. -/
def Request.isStrongWrite (key : Key) (q : Request) : Bool :=
  !q.weak && q.command.isWrite && q.command.key = key

theorem Request.isStrongWrite_iff :
    q.isStrongWrite key = true ↔
      q.command.key = key ∧ q.command.isWrite = true ∧ (!q.weak) = true := by
  simp only [isStrongWrite, Bool.and_eq_true, decide_eq_true_eq]
  tauto

namespace Log

/-- The requests in the slots that have not executed, in the order of these. -/
def waiting (log : Log) (executed : Slot) : List Request :=
  (log.drop executed).map Assignment.toRequest

theorem waiting_append (hexec : executed ≤ log.length) (a : Assignment) :
    (log ++ [a]).waiting executed = log.waiting executed ++ [a.toRequest] := by
  rw [waiting, List.drop_append_of_le_length hexec, List.map_append]
  rfl

theorem waiting_eq_cons (hq : log.request? executed = some q) :
    log.waiting executed = q :: log.waiting (executed + 1) := by
  obtain ⟨a, ha, rfl⟩ := Log.request?_eq_some hq
  obtain ⟨hlt, rfl⟩ := List.getElem?_eq_some_iff.1 ha
  rw [waiting, List.drop_eq_getElem_cons hlt, List.map_cons]
  rfl

theorem getElem?_waiting (log : Log) (executed : Slot) (n : Nat) :
    (log.waiting executed)[n]? = log.request? (executed + n) := by
  rw [waiting, List.getElem?_map, List.getElem?_drop]
  rfl

theorem mem_waiting : q ∈ log.waiting executed ↔
    ∃ slot, executed ≤ slot ∧ log.request? slot = some q := by
  simp only [List.mem_iff_getElem?, getElem?_waiting]
  constructor
  · rintro ⟨n, hq⟩
    exact ⟨executed + n, Nat.le_add_right _ _, hq⟩
  · rintro ⟨slot, hle, hq⟩
    exact ⟨slot - executed, by rwa [Nat.add_sub_cancel' hle]⟩

end Log

namespace Witness

variable {w : Witness}

/-- The entries of a leader's witness count the strong writes of the unexecuted slots, and have the
latest weak write of these. -/
structure Mirrors (log : Log) (executed : Slot) (w : Witness) : Prop where
  strongCount_eq : ∀ key, w.strongCount key =
    (log.waiting executed).countP (Request.isStrongWrite key)
  pendingWeak_eq : ∀ key, w.pendingWeak key =
    ((log.waiting executed).filter (Request.isWeakWrite key)).getLast?.map
      fun q => (q.id, q.command.value)

theorem mirrors_leader : leader.Mirrors [] 0 where
  strongCount_eq key := by simp [strongCount, entry?, leader, Log.waiting]
  pendingWeak_eq key := by simp [pendingWeak, entry?, leader, Log.waiting]

theorem enters_assign (hstaged : w.staged = ∅) (id : CommandId) (c : Command) (strong : Bool)
    (hslot : ∀ e, w.entry? c.key = some e → e.slot ≤ slot) :
    w.Enters id c strong (w.assign id c strong slot).1 := by
  have hunstage : (if strong then w else w.unstage id c.key) = w := by
    rw [unstage_of_staged_eq hstaged, ite_self]
  unfold assign
  rw [hunstage]
  dsimp only
  cases he : w.unsynced[c.key]? with
  | none =>
      refine ⟨⟨slot, strong, c.op, c.value, id, 0, none⟩, ?_, ?_, fun key => ?_⟩
      · simp [strongCount, entry?, he]
      · simp [pendingWeak, entry?, he]
      · simp [ entry?, Std.ExtTreeMap.getElem?_insert, Entry.new]
  | some e =>
      have hnot : ¬slot < e.slot := Nat.not_lt.2 (hslot e he)
      refine ⟨{ e with slot := slot }, ?_, ?_, fun key => ?_⟩
      · simp [strongCount, entry?, he]
      · simp [pendingWeak, entry?, he]
      · simp [hnot, entry?, Std.ExtTreeMap.getElem?_insert]

theorem leaves_release (w : Witness) (slot : Slot) (id : CommandId) (c : Command) (strong : Bool) :
    w.Leaves id c strong (w.release slot id c strong) := by
  intro key e' he'
  rw [ entry?, getElem?_release] at he'
  split at he'
  · rename_i hkey
    obtain ⟨e, he, he'⟩ := Option.bind_eq_some_iff.1 he'
    split at he'
    · simp at he'
    · obtain rfl := Option.some.inj he'
      exact ⟨e, he, by rw [if_pos hkey]; exact ⟨rfl, rfl⟩⟩
  · rename_i hkey
    exact ⟨e', he', by rw [if_neg hkey]⟩

namespace Mirrors

/-- A request is given the next slot. -/
theorem assign (h : w.Mirrors log executed) (htracks : w.Tracks log executed) (a : Assignment)
    (hexec : executed ≤ log.length) :
    (w.assign a.id a.command (!a.weak) log.length).1.Mirrors (log ++ [a]) executed := by
  have henters := enters_assign htracks.staged_eq a.id a.command (!a.weak)
    fun e he => Nat.le_of_lt (htracks.slot_lt_length he)
  constructor
  case strongCount_eq =>
    intro key
    rw [henters.strongCount, h.strongCount_eq, Log.waiting_append hexec, List.countP_append,
      List.countP_singleton]
    simp only [Request.isStrongWrite_iff]
  case pendingWeak_eq =>
    intro key
    rw [henters.pendingWeak_request, h.pendingWeak_eq, Log.waiting_append hexec,
      List.filter_append]
    by_cases hkind : a.toRequest.isWeakWrite key = true
    · simp [hkind]
    · simp [hkind]

/-- The first unexecuted slot executes. -/
theorem release (h : w.Mirrors log executed) (htracks : w.Tracks log executed)
    (hq : log.request? executed = some q)
    (hunique : ∀ q' ∈ log.waiting (executed + 1), q'.id ≠ q.id) :
    (w.release executed q.id q.command (!q.weak)).Mirrors log (executed + 1) := by
  have hafter := htracks.release hq
  have hleaves := leaves_release w executed q.id q.command (!q.weak)
  have hcons := Log.waiting_eq_cons hq
  -- without an entry no slot of the key is left to execute
  have hnone : ∀ key, Witness.entry? (w.release executed q.id q.command (!q.weak)) key = none →
      ∀ q' ∈ log.waiting (executed + 1), q'.command.key ≠ key := by
    rintro _ he q' hmem rfl
    obtain ⟨slot, hle, hq'⟩ := Log.mem_waiting.1 hmem
    obtain ⟨e, he', -⟩ := hafter.entry_complete hq' hle
    rw [ entry?, he'] at he
    simp at he
  constructor
  case strongCount_eq =>
    intro key
    cases he : Witness.entry? (w.release executed q.id q.command (!q.weak)) key with
    | none =>
        have hcount : (log.waiting (executed + 1)).countP (Request.isStrongWrite key) = 0 := by
          refine List.countP_eq_zero.2 fun q' hmem hkind => ?_
          exact hnone key he q' hmem (Request.isStrongWrite_iff.1 hkind).1
        simp [strongCount, he, hcount]
    | some e =>
        rw [hleaves.strongCount he, h.strongCount_eq, hcons, List.countP_cons]
        simp only [Request.isStrongWrite_iff]
        exact Nat.add_sub_cancel _ _
  case pendingWeak_eq =>
    intro key
    cases he : Witness.entry? (w.release executed q.id q.command (!q.weak)) key with
    | none =>
        have hfilter : (log.waiting (executed + 1)).filter (Request.isWeakWrite key) = [] := by
          refine List.filter_eq_nil_iff.2 fun q' hmem hkind => ?_
          exact hnone key he q' hmem (Request.isWeakWrite_iff.1 hkind).2.2
        simp [pendingWeak, he, hfilter]
    | some e =>
        rw [hleaves.pendingWeak_request he, h.pendingWeak_eq, hcons]
        by_cases hkind : q.isWeakWrite key = true
        · rw [List.filter_cons_of_pos hkind]
          cases hrest : (log.waiting (executed + 1)).filter (Request.isWeakWrite key) with
          | nil => simp [hkind]
          | cons q₁ rest =>
              have hlast : (q₁ :: rest).getLast (List.cons_ne_nil _ _) ∈
                  (log.waiting (executed + 1)).filter (Request.isWeakWrite key) := by
                rw [hrest]
                exact List.getLast_mem _
              have hne := hunique _ (List.mem_filter.1 hlast).1
              simp [List.getLast?_eq_some_getLast, hne]
        · rw [if_neg (by simp [hkind]), List.filter_cons_of_neg hkind]

end Mirrors

end Witness

end WitnessReplication
