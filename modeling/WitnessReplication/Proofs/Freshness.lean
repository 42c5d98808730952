import WitnessReplication.Proofs.Network.Soundness

/-!
# Freshness of strong reads

A strong read that is issued after a strong write has completed gets a later slot than that. On
the slow path it returns the log's result, which has the write. On the fast path it returns what
the leader answered when it gave the read its slot, from the part of the log that it had executed
by then: a clear answer only means that the latest command on the key was committed.
-/

namespace WitnessReplication

/-- A value was written to a key in a slot from `low` on. -/
def Log.WrittenSince (log : Log) (low : Slot) (key : Key) (value : Value) : Prop :=
  ∃ slot q, low ≤ slot ∧ log.request? slot = some q ∧ q.command.Writes key value

/-- A read of a key that has been written returns a write no earlier than that one. -/
theorem Log.writtenSince_result {log : Log} {slot count : Nat} {q : Request} {c : Command}
    (hq : log.request? slot = some q) (hw : q.command.isWrite = true) (hlt : slot < count)
    (hc : count ≤ log.length) (hop : c.op = .get) (hkey : c.key = q.command.key) :
    log.WrittenSince slot c.key ((log.storeAt count).result c) := by
  obtain ⟨later, q', value, hle, -, hq', hwrites, hget⟩ := Log.exists_write_of_lt hq hw hlt hc
  have hresult : (log.storeAt count).result c = value := by
    rw [Store.result, hop, hkey]
    dsimp only
    rw [hget]
    rfl
  rw [hresult, hkey]
  exact ⟨later, q', hle, hq', hwrites⟩

namespace History

variable {config : Config} {bounds : List ReplicaId} {h h' : History}

/-- A strong write completes in `h`, and a strong read that is issued after that completes with a
value in `h'`. -/
structure ReadsAfter (h h' : History) (put read : Request) (value : Value) (path : Path) :
    Prop where
  put_strong : put.weak = false
  put_writes : put.command.isWrite = true
  put_done : ∃ written path, h.Completed put written path
  read_strong : read.weak = false
  read_new : read ∉ h.issued
  read_done : h'.Completed read value path

/-- What a completed strong command was answered: by the leader when it gave out the slot, or from
the log. -/
theorem Sound.strong_result (hs : h.Sound config) {q : Request} {value : Value} {path : Path}
    (hstrong : q.weak = false) (hdone : h.Completed q value path) :
    ∃ (slot : Slot) (a : Assignment), h.log[slot]? = some a ∧ a.toRequest = q ∧
      ((path = .fast ∧ value = a.leader.speculate q.id q.command true ∧
          a.leader.verdict q.command.key = .clear) ∨
        (path = .slow ∧ value = ((h.log.storeAt slot).execute q.command).2)) := by
  obtain ⟨hq, hmem⟩ := hdone
  obtain ⟨⟨command, hissued⟩, hbacked⟩ := hs.completions _ hmem
  have hsame : ∀ {slot : Slot} {q' : Request}, h.log.request? slot = some q' → q'.id = q.id →
      q' = q := fun hslot hid => hs.records.issued_unique (hs.records.request_issued hslot) hq hid
  cases path with
  | fast =>
      obtain ⟨slot, a, ha, hid, -, hvalue, hok⟩ := hbacked
      obtain rfl := hsame (Log.request?_of_getElem? ha) hid
      exact ⟨slot, a, ha, rfl, .inl ⟨rfl, hvalue, hok.symm⟩⟩
  | slow =>
      obtain ⟨slot, q', hslot, hid, -, hvalue⟩ := hbacked
      obtain rfl := hsame hslot hid
      obtain ⟨a, ha, rfl⟩ := Log.request?_eq_some hslot
      exact ⟨slot, a, ha, rfl, .inr ⟨rfl, hvalue⟩⟩
  | weak =>
      have hweak := hs.records.issued_unique hq hissued rfl
      rw [hweak] at hstrong
      simp at hstrong

/-- The slots of a write and of a read that is issued after the write has completed. -/
theorem ReadsAfter.slots {actions : List Network.Action} (hh : h.Reachable config bounds)
    {put read : Request} {value : Value} {path : Path}
    (hr : h.ReadsAfter (h.run actions) put read value path) :
    ∃ (slotPut slotRead : Nat) (a : Assignment), (h.run actions).log.request? slotPut = some put ∧
      (h.run actions).log[slotRead]? = some a ∧ a.toRequest = read ∧ slotPut < slotRead ∧
      a.leader.Leads ((h.run actions).log.take slotRead) ∧
      ((path = .fast ∧ value = a.leader.speculate read.id read.command true ∧
          a.leader.verdict read.command.key = .clear) ∨
        (path = .slow ∧
          value = (((h.run actions).log.storeAt slotRead).execute read.command).2)) := by
  have hs := (hh.run actions).sound
  have hprefix := log_mono_run h actions
  obtain ⟨written, putPath, hput⟩ := hr.put_done
  obtain ⟨slotPut, b, hb, rfl, -⟩ := hh.sound.strong_result hr.put_strong hput
  obtain ⟨slotRead, a, ha, rfl, hvalue⟩ := hs.strong_result hr.read_strong hr.read_done
  refine ⟨slotPut, slotRead, a, ?_, ha, rfl, ?_, hs.records.leader_led ha, hvalue⟩
  · exact Log.request?_mono hprefix (Log.request?_of_getElem? hb)
  · -- the read was not issued when the write already had its slot
    refine Nat.lt_of_lt_of_le (List.getElem?_eq_some_iff.1 hb).1 (Nat.le_of_not_lt fun hlt => ?_)
    obtain ⟨more, hmore⟩ := hprefix
    rw [← hmore, List.getElem?_append_left hlt] at ha
    exact hr.read_new (hh.sound.records.request_issued (Log.request?_of_getElem? ha))

/-- A strong read of one key returns a write no older than one that had completed before it was
issued, if it completes on the slow path or the leader had executed that write when it gave the
read its slot. On the fast path it returns the pending write that the leader knew of then, and
otherwise what the executed part of the log left at the key: without the completed write, if the
leader had not executed that. The latest command on the key was committed in this case, and the
pending write is no older than the completed one, or it is older and has not executed either. -/
theorem get_after_put (hh : h.Reachable config bounds) {actions : List Network.Action}
    {put get : Request} {value : Value} {path : Path}
    (hr : h.ReadsAfter (h.run actions) put get value path) (hop : get.command.op = .get)
    (hkey : get.command.key = put.command.key) :
    ∃ (slotPut slotGet : Nat) (a : Assignment), (h.run actions).log.request? slotPut = some put ∧
      (h.run actions).log[slotGet]? = some a ∧ a.toRequest = get ∧ slotPut < slotGet ∧
      (path = .slow ∨ slotPut < a.leader.executed →
        (h.run actions).log.WrittenSince slotPut put.command.key value) ∧
      (path = .fast →
        value = (a.leader.pendingWrite? get.id get.command.key).getD
          (((h.run actions).log.storeAt a.leader.executed).result get.command)) ∧
      (path = .fast → a.leader.executed ≤ slotPut →
        (∃ dep, a.leader.dependency? put.command.key = some dep ∧ slotPut ≤ dep ∧
          a.leader.isCommitted dep = true) ∧
        ∀ pending, a.leader.pendingWrite? get.id get.command.key = some pending →
          Log.WrittenSince ((h.run actions).log.take slotGet) slotPut put.command.key pending ∨
            Log.WrittenSince ((h.run actions).log.take slotPut) a.leader.executed put.command.key
              pending) := by
  obtain ⟨slotPut, slotGet, a, hput, ha, rfl, hlt, hleads, hvalue⟩ := hr.slots hh
  have hlength : slotGet ≤ (h.run actions).log.length :=
    Nat.le_of_lt (List.getElem?_eq_some_iff.1 ha).1
  have htake := List.take_prefix slotGet (h.run actions).log
  have hread : a.command.isWrite = false := by simp [Command.isWrite, hop]
  have hspeculate := hleads.speculate_get a.id hop
  rw [← Log.storeAt_mono htake hleads.executed_le] at hspeculate
  -- the store after the write, however far it is replayed, has a write that is no older
  have hreplayed : ∀ count, slotPut < count → count ≤ (h.run actions).log.length →
      (h.run actions).log.WrittenSince slotPut put.command.key
        (((h.run actions).log.storeAt count).result a.command) := by
    intro count hcount hc
    rw [← hkey]
    exact Log.writtenSince_result hput hr.put_writes hcount hc hop hkey
  refine ⟨slotPut, slotGet, a, hput, ha, rfl, hlt, ?_, ?_, ?_⟩
  · intro hcond
    rcases hvalue with ⟨hfast, rfl, -⟩ | ⟨-, rfl⟩
    · have hexec : slotPut < a.leader.executed := by simpa [hfast] using hcond
      rw [hspeculate]
      cases hpending : a.leader.pendingWrite? a.id a.command.key with
      | some pending =>
          obtain ⟨slot, q, hq, hle, hwrites⟩ := hleads.pendingWrite_awaits hpending
          exact ⟨slot, q, Nat.le_of_lt (Nat.lt_of_lt_of_le hexec hle),
            Log.request?_mono htake hq, hkey ▸ hwrites⟩
      | none => exact hreplayed _ hexec (Nat.le_trans hleads.executed_le htake.length_le)
    · rw [Store.execute_of_not_isWrite _ hread]
      exact hreplayed slotGet hlt hlength
  · intro hfast
    rcases hvalue with ⟨-, rfl, -⟩ | ⟨hslow, -⟩
    · exact hspeculate
    · simp [hslow] at hfast
  · intro hfast hexec
    rcases hvalue with ⟨-, -, hclear⟩ | ⟨hslow, -⟩
    · rw [hkey] at hclear ⊢
      have hunexecuted := (Log.request?_take hlt).trans hput
      refine ⟨hleads.committed_of_clear hunexecuted rfl hexec hclear, fun pending hpending => ?_⟩
      obtain ⟨slot, q, hq, hle, hwrites⟩ := hleads.pendingWrite_awaits hpending
      rcases Nat.lt_or_ge slot slotPut with holder | hnewer
      · have hq' := Log.request?_mono htake hq
        exact .inr ⟨slot, q, hle, (Log.request?_take holder).trans hq', hwrites⟩
      · exact .inl ⟨slot, q, hnewer, hq, hwrites⟩
    · simp [hslow] at hfast

/-- Client 1 writes key 1, which completes before the leader has executed it. -/
def writeFirst : List Network.Action :=
  [.propose 0 ⟨.put, 1, ⟨[118]⟩⟩, .deliver 0, .deliver 1, .deliver 1, .deliver 2]

/-- Client 2 reads, is refused by the leader and completes once its slot has executed. -/
def readSlowly (c : Command) : List Network.Action :=
  [.propose 1 c, .deliver 2, .deliver 4, .deliver 5, .deliver 1, .deliver 3, .deliver 5]

theorem get_after_put_pair :
    ∃ slotPut, ((pair.run writeFirst).run (readSlowly (.get 1))).log.request? slotPut =
        some ⟨⟨1, 0⟩, ⟨.put, 1, ⟨[118]⟩⟩, false⟩ ∧
      ((pair.run writeFirst).run (readSlowly (.get 1))).log.WrittenSince slotPut 1 ⟨[118]⟩ := by
  have hr : (pair.run writeFirst).ReadsAfter ((pair.run writeFirst).run (readSlowly (.get 1)))
      ⟨⟨1, 0⟩, ⟨.put, 1, ⟨[118]⟩⟩, false⟩ ⟨⟨2, 0⟩, .get 1, false⟩ ⟨[118]⟩ .slow :=
    ⟨rfl, rfl, ⟨.nil, .fast, by decide +kernel, by decide +kernel⟩, rfl, by decide +kernel,
      by decide +kernel, by decide +kernel⟩
  obtain ⟨slotPut, _, _, hput, -, -, -, hfresh, -, -⟩ :=
    get_after_put (reachable_pair.run writeFirst) hr rfl rfl
  exact ⟨slotPut, hput, hfresh (.inl rfl)⟩

/-- Client 1 writes keys 9 and 1. The second write completes and is committed, but it waits for
the first one to execute. -/
def writeBehind : List Network.Action :=
  [.propose 0 ⟨.put, 9, ⟨[120]⟩⟩, .deliver 0, .deliver 2, .propose 0 ⟨.put, 1, ⟨[118]⟩⟩,
    .deliver 4, .deliver 5, .deliver 5, .deliver 6, .deliver 5]

/-- Client 2 reads key 1, which the leader clears, and so does the other replica. -/
def getClear : List Network.Action :=
  [.propose 1 (.get 1), .deliver 6, .deliver 7, .deliver 7, .deliver 8]

/-- A read on the fast path may return nothing although a write of its key has completed. -/
theorem not_get_fresh :
    ¬∀ (config : Config) (bounds : List ReplicaId) (h : History) (actions : List Network.Action)
        (put get : Request) (value : Value) (path : Path), h.Reachable config bounds →
        h.ReadsAfter (h.run actions) put get value path → get.command.op = .get →
        get.command.key = put.command.key →
        ∃ slotPut, (h.run actions).log.request? slotPut = some put ∧
          (h.run actions).log.WrittenSince slotPut put.command.key value := by
  intro hfresh
  have hr : (pair.run writeBehind).ReadsAfter ((pair.run writeBehind).run getClear)
      ⟨⟨1, 1⟩, ⟨.put, 1, ⟨[118]⟩⟩, false⟩ ⟨⟨2, 0⟩, .get 1, false⟩ .nil .fast :=
    ⟨rfl, rfl, ⟨.nil, .fast, by decide +kernel, by decide +kernel⟩, rfl, by decide +kernel,
      by decide +kernel, by decide +kernel⟩
  obtain ⟨-, -, slot, q, -, hq, hwrites⟩ :=
    hfresh _ _ _ _ _ _ _ _ (reachable_pair.run writeBehind) hr rfl rfl
  have hnone : ∀ q ∈ ((pair.run writeBehind).run getClear).log.map Assignment.toRequest,
      q.command ≠ ⟨.put, 1, .nil⟩ := by decide +kernel
  rw [Log.request?, ← List.getElem?_map] at hq
  exact hnone q (List.mem_of_getElem? hq) hwrites

/-- A strong scan returns its result on the store after the log's beginning up to its own slot on
the slow path, and up to where the leader had executed when it gave out that slot on the fast
path. Whatever key it starts from, a write that completed before it was issued is in that
beginning if it completes on the slow path or the leader had executed the write by then. -/
theorem scan_after_put (hh : h.Reachable config bounds) {actions : List Network.Action}
    {put scan : Request} {value : Value} {path : Path}
    (hr : h.ReadsAfter (h.run actions) put scan value path) (hop : scan.command.op = .scan) :
    ∃ (slotPut slotScan : Nat) (a : Assignment), (h.run actions).log.request? slotPut = some put ∧
      (h.run actions).log[slotScan]? = some a ∧ a.toRequest = scan ∧ slotPut < slotScan ∧
      (path = .slow ∨ slotPut < a.leader.executed →
        ∃ count, slotPut < count ∧ count ≤ (h.run actions).log.length ∧
          value = ((h.run actions).log.storeAt count).result scan.command) ∧
      (path = .fast →
        value = ((h.run actions).log.storeAt a.leader.executed).result scan.command) := by
  obtain ⟨slotPut, slotScan, a, hput, ha, rfl, hlt, hleads, hvalue⟩ := hr.slots hh
  have hlength : slotScan ≤ (h.run actions).log.length :=
    Nat.le_of_lt (List.getElem?_eq_some_iff.1 ha).1
  have htake := List.take_prefix slotScan (h.run actions).log
  have hstore := Log.storeAt_mono htake hleads.executed_le
  have hread : a.command.isWrite = false := by simp [Command.isWrite, hop]
  refine ⟨slotPut, slotScan, a, hput, ha, rfl, hlt, ?_⟩
  rcases hvalue with ⟨rfl, rfl, -⟩ | ⟨rfl, rfl⟩
  · have hresult := hleads.speculate_scan a.id hop
    rw [← hstore] at hresult
    refine ⟨fun hcond => ⟨a.leader.executed, ?_, ?_, hresult⟩, fun _ => hresult⟩
    · simpa using hcond
    · exact Nat.le_trans hleads.executed_le htake.length_le
  · refine ⟨fun _ => ⟨slotScan, hlt, hlength, Store.execute_of_not_isWrite _ hread⟩, ?_⟩
    simp

theorem scan_after_put_pair :
    ∃ count, count ≤ ((pair.run writeFirst).run (readSlowly (.scan 1 1))).log.length ∧ 0 < count ∧
      ⟨[118]⟩ = (((pair.run writeFirst).run (readSlowly (.scan 1 1))).log.storeAt count).result
        (.scan 1 1) := by
  have hr : (pair.run writeFirst).ReadsAfter ((pair.run writeFirst).run (readSlowly (.scan 1 1)))
      ⟨⟨1, 0⟩, ⟨.put, 1, ⟨[118]⟩⟩, false⟩ ⟨⟨2, 0⟩, .scan 1 1, false⟩ ⟨[118]⟩ .slow :=
    ⟨rfl, rfl, ⟨.nil, .fast, by decide +kernel, by decide +kernel⟩, rfl, by decide +kernel,
      by decide +kernel, by decide +kernel⟩
  obtain ⟨slotPut, _, _, -, -, -, -, hresult, -⟩ :=
    scan_after_put (reachable_pair.run writeFirst) hr rfl
  obtain ⟨count, hlt, hle, hvalue⟩ := hresult (.inl rfl)
  exact ⟨count, hle, Nat.zero_lt_of_lt hlt, hvalue⟩

/-- Client 1 writes key 5, which completes before the leader has executed it. -/
def writeInRange : List Network.Action :=
  [.propose 0 ⟨.put, 5, ⟨[118]⟩⟩, .deliver 0, .deliver 0, .deliver 0, .deliver 1]

/-- Client 2 scans from key 0, on which nothing is pending anywhere. -/
def scanClear : List Network.Action :=
  [.propose 1 (.scan 0 10), .deliver 1, .deliver 1, .deliver 1, .deliver 2]

/-- A scan on the fast path may miss a completed write of a key in its range. -/
theorem not_scan_fresh :
    ¬∀ (config : Config) (bounds : List ReplicaId) (h : History) (actions : List Network.Action)
        (put scan : Request) (value : Value) (path : Path), h.Reachable config bounds →
        h.ReadsAfter (h.run actions) put scan value path → scan.command.op = .scan →
        scan.command.key ≤ put.command.key →
        ∃ slotPut count, (h.run actions).log.request? slotPut = some put ∧ slotPut < count ∧
          count ≤ (h.run actions).log.length ∧
          value = ((h.run actions).log.storeAt count).result scan.command := by
  intro hfresh
  have hr : (pair.run writeInRange).ReadsAfter ((pair.run writeInRange).run scanClear)
      ⟨⟨1, 0⟩, ⟨.put, 5, ⟨[118]⟩⟩, false⟩ ⟨⟨2, 0⟩, .scan 0 10, false⟩ .nil .fast :=
    ⟨rfl, rfl, ⟨.nil, .fast, by decide +kernel, by decide +kernel⟩, rfl, by decide +kernel,
      by decide +kernel, by decide +kernel⟩
  obtain ⟨slotPut, count, -, hlt, hle, hvalue⟩ :=
    hfresh _ _ _ _ _ _ _ _ (reachable_pair.run writeInRange) hr rfl (by decide)
  have hlength : ((pair.run writeInRange).run scanClear).log.length = 2 := by decide +kernel
  rw [hlength] at hle
  have hcount : count = 1 ∨ count = 2 := by lia
  rcases hcount with rfl | rfl
  · revert hvalue
    decide +kernel
  · revert hvalue
    decide +kernel

end History

end WitnessReplication
