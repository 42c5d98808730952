import WitnessReplication.Replica.Handling

/-!
# The leader's order

The leader gives every request it takes up a slot of its own. `Log` is the resulting order, and
`Log.storeAt` replays a part of it from the empty store.

A value that a replica holds or sends is traced back to the log by `Log.Results`: it is what the
request yields when its slot is executed in order. `Log.Answers` traces a speculative answer to
the leader as it was when the request reached it.

## Implementation notes

An assignment keeps the whole leader, not only its count of executed slots, so that every fact
about the moment of an assignment can be read off the log later.
-/

namespace WitnessReplication

/-- A command as its client issued it, strong or weak. -/
structure Request where
  id : CommandId
  command : Command
  weak : Bool
  deriving DecidableEq, Repr

/-- A request with a slot of its own, and the leader as it was when the request reached it. -/
structure Assignment extends Request where
  leader : Replica

/-- The leader's order: the assignment of each slot, from slot zero on. -/
abbrev Log := List Assignment

/-- Whether a command writes a value to a key. -/
def Command.Writes (c : Command) (key : Key) (value : Value) : Prop :=
  c = ⟨.put, key, value⟩

/-- The slot that a further command on a key would depend on. -/
def Replica.dependency? (r : Replica) (key : Key) : Option Slot :=
  r.witness.unsynced[key]?.map Witness.Entry.slot

/-- The leader's verdict on a further command on a key. -/
def Replica.verdict (r : Replica) (key : Key) : Ack :=
  if (r.dependency? key).all r.isCommitted then .clear else .refused

theorem Command.writes_of_isWrite {c : Command} (h : c.isWrite = true) :
    c.Writes c.key c.value := by
  have hop : c.op = .put := by simpa [Command.isWrite] using h
  cases c
  simp_all [Command.Writes]

theorem Store.get?_execute (s : Store) (c : Command) (key : Key) :
    (s.execute c).1.get? key =
      if c.isWrite ∧ c.key = key then some c.value else s.get? key := by
  unfold Store.execute Command.isWrite Store.get?
  cases hop : c.op with
  | put => simp [Std.ExtTreeMap.getElem?_insert]
  | get => simp
  | scan => simp
  | none => simp

/-- A command that does not write yields its result on the store before it. -/
theorem Store.execute_of_not_isWrite (s : Store) {c : Command} (h : c.isWrite = false) :
    (s.execute c).2 = s.result c := by
  unfold Store.execute
  cases hop : c.op <;> simp_all [Command.isWrite]

namespace Log

variable {log log' : Log}

/-- The request that has a slot. -/
def request? (log : Log) (slot : Slot) : Option Request :=
  log[slot]?.map Assignment.toRequest

/-- The store after the first `count` slots. -/
def storeAt (log : Log) (count : Nat) : Store :=
  Store.empty.executeAll ((log.take count).map fun a => a.command)

/-- A value is what executing a command's slot yields in order, for a slot below `bound`. -/
def Results (log : Log) (bound : Slot) (id : CommandId) (value : Value) : Prop :=
  ∃ slot q, log.request? slot = some q ∧ q.id = id ∧ slot < bound ∧
    value = ((log.storeAt slot).execute q.command).2

/-- A strong command has a slot, and a value and a verdict are what the leader answered when it
gave the slot. -/
def Answers (log : Log) (id : CommandId) (value : Value) (ok : Ack) : Prop :=
  ∃ (slot : Slot) (a : Assignment), log[slot]? = some a ∧ a.id = id ∧ a.weak = false ∧
    value = a.leader.speculate a.id a.command true ∧ ok = a.leader.verdict a.command.key

theorem request?_of_getElem? {slot : Slot} {a : Assignment} (h : log[slot]? = some a) :
    log.request? slot = some a.toRequest := by
  rw [request?, h, Option.map_some]

theorem request?_eq_some {slot : Slot} {q : Request} (h : log.request? slot = some q) :
    ∃ a, log[slot]? = some a ∧ a.toRequest = q :=
  Option.map_eq_some_iff.1 h

theorem lt_length_of_request? {slot : Slot} {q : Request} (h : log.request? slot = some q) :
    slot < log.length := by
  obtain ⟨a, ha, -⟩ := request?_eq_some h
  exact (List.getElem?_eq_some_iff.1 ha).1

theorem exists_request? {slot : Nat} (h : slot < log.length) : ∃ q, log.request? slot = some q :=
  ⟨log[slot].toRequest, request?_of_getElem? (List.getElem?_eq_getElem h)⟩

theorem getElem?_mono {slot : Slot} {a : Assignment} (h : log <+: log')
    (ha : log[slot]? = some a) : log'[slot]? = some a := by
  obtain ⟨more, rfl⟩ := h
  obtain ⟨hlt, -⟩ := List.getElem?_eq_some_iff.1 ha
  rw [List.getElem?_append_left hlt, ha]

theorem request?_mono {slot : Slot} {q : Request} (h : log <+: log')
    (hq : log.request? slot = some q) : log'.request? slot = some q := by
  obtain ⟨a, ha, rfl⟩ := request?_eq_some hq
  exact request?_of_getElem? (getElem?_mono h ha)

theorem request?_append_left {slot : Nat} (more : Log) (h : slot < log.length) :
    Log.request? (log ++ more) slot = log.request? slot := by
  rw [request?, request?, List.getElem?_append_left h]

/-- The slot after the last one holds the next request. -/
theorem request?_append_self (log : Log) (a : Assignment) :
    Log.request? (log ++ [a]) log.length = some a.toRequest :=
  request?_of_getElem? (by simp)

/-- A longer log has only its last request besides those from before. -/
theorem request?_append_eq_some {slot : Slot} {a : Assignment} {q : Request}
    (h : Log.request? (log ++ [a]) slot = some q) :
    log.request? slot = some q ∨ (slot = log.length ∧ a.toRequest = q) := by
  have hlt := lt_length_of_request? h
  rw [List.length_append, List.length_singleton] at hlt
  rcases Nat.lt_succ_iff_lt_or_eq.1 hlt with hold | rfl
  · rw [request?_append_left _ hold] at h
    exact .inl h
  · exact .inr ⟨rfl, Option.some.inj ((request?_append_self log a).symm.trans h)⟩

theorem request?_take {slot count : Nat} (h : slot < count) :
    Log.request? (log.take count) slot = log.request? slot := by
  rw [request?, request?, List.getElem?_take_of_lt h]

/-- One more slot executes one more command. -/
theorem storeAt_succ {slot : Slot} {q : Request} (h : log.request? slot = some q) :
    log.storeAt (slot + 1) = ((log.storeAt slot).execute q.command).1 := by
  obtain ⟨a, ha, rfl⟩ := request?_eq_some h
  simp [storeAt, List.take_add_one, ha, Store.executeAll_append]

/-- Every slot of the replayed part is counted once. -/
theorem applied_storeAt {count : Nat} (h : count ≤ log.length) :
    (log.storeAt count).applied = count := by
  simp [storeAt, Store.empty, Nat.min_eq_left h]

/-- Later slots do not change what the earlier ones replay to. -/
theorem storeAt_mono {count : Nat} (h : log <+: log') (hc : count ≤ log.length) :
    log'.storeAt count = log.storeAt count := by
  obtain ⟨more, rfl⟩ := h
  rw [storeAt, storeAt, List.take_append_of_le_length hc]

/-- Once a key is written below `count`, its value there is that of a write no earlier. -/
theorem exists_write_of_lt {slot count : Nat} {q : Request} (hq : log.request? slot = some q)
    (hw : q.command.isWrite = true) (hlt : slot < count) (hc : count ≤ log.length) :
    ∃ later q' value, slot ≤ later ∧ later < count ∧ log.request? later = some q' ∧
      q'.command.Writes q.command.key value ∧
      (log.storeAt count).get? q.command.key = some value := by
  induction count with
  | zero => omega
  | succ count ih =>
      obtain ⟨b, hb⟩ := exists_request? (show count < log.length by omega)
      rw [storeAt_succ hb, Store.get?_execute]
      by_cases hwrite : b.command.isWrite = true ∧ b.command.key = q.command.key
      · refine ⟨count, b, b.command.value, by omega, by omega, hb, ?_, by rw [if_pos hwrite]⟩
        rw [← hwrite.2]
        exact Command.writes_of_isWrite hwrite.1
      · have hne : slot ≠ count := by
          rintro rfl
          obtain rfl : q = b := Option.some.inj (hq.symm.trans hb)
          exact hwrite ⟨hw, rfl⟩
        obtain ⟨later, q', value, hle, hlt', hq', hwrites, hget⟩ := ih (by omega) (by omega)
        rw [if_neg hwrite]
        exact ⟨later, q', value, hle, by omega, hq', hwrites, hget⟩

theorem Results.mono {bound bound' : Slot} {id : CommandId} {value : Value}
    (h : log.Results bound id value) (hlog : log <+: log') (hb : bound ≤ bound') :
    log'.Results bound' id value := by
  obtain ⟨slot, q, hq, hid, hlt, rfl⟩ := h
  have hlen := lt_length_of_request? hq
  refine ⟨slot, q, request?_mono hlog hq, hid, Nat.lt_of_lt_of_le hlt hb, ?_⟩
  rw [storeAt_mono hlog (Nat.le_of_lt hlen)]

theorem Answers.mono {id : CommandId} {value : Value} {ok : Ack} (h : log.Answers id value ok)
    (hlog : log <+: log') : log'.Answers id value ok := by
  obtain ⟨slot, a, ha, hrest⟩ := h
  exact ⟨slot, a, getElem?_mono hlog ha, hrest⟩

end Log

end WitnessReplication
