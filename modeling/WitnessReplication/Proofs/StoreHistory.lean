import Mathlib.Data.List.Induction
import WitnessReplication.Proofs.Decimal.Count
import WitnessReplication.Proofs.Log
import WitnessReplication.Proofs.Text.Utf8

/-!
# The store and its history

A store that started empty is determined by the commands applied to it (`equals_history`): under
each key it holds what was last put there, it counts every command, only a put changes what is
stored, and a scan walks the keys that were put, in their order, reading at each the text that was
last put there.

## Implementation notes

What a store holds needs no assumption on the values (`get?_executeAll`). Only a scan reads values
as texts, so only there it matters that texts were put.
-/

namespace WitnessReplication

/-- Reading back a text gives the text. -/
@[simp] theorem Value.text_ofText (text : String) : (Value.ofText text).text = text :=
  Text.Utf8.decode_encode text

namespace Store

variable {s : Store} {cs : List Command} {c : Command} {key : Key}

/-- The value that a history last put at a key, if it put any. -/
def lastPut? (cs : List Command) (key : Key) : Option Value :=
  ((cs.filter fun c => c.isWrite ∧ c.key = key).getLast?).map Command.value

/-- The values that commands put are texts. -/
def PutsTexts (cs : List Command) : Prop :=
  ∀ c ∈ cs, c.isWrite = true → ∃ text, c.value = .ofText text

/-- The keys from `key` on that a history put, in increasing order, each with the text that was
last put there. -/
structure Walk (cs : List Command) (key : Key) (entries : List (Key × String)) : Prop where
  increasing : entries.Pairwise fun a b => a.1 < b.1
  mem_iff : ∀ k text, (k, text) ∈ entries ↔ key ≤ k ∧ lastPut? cs k = some (.ofText text)

theorem lastPut?_concat (cs : List Command) (c : Command) (key : Key) :
    lastPut? (cs ++ [c]) key =
      if c.isWrite ∧ c.key = key then some c.value else lastPut? cs key := by
  unfold lastPut?
  rw [List.filter_append]
  by_cases hc : c.isWrite ∧ c.key = key
  · simp [hc]
  · simp [hc]

/-- What was last put at a key is the value of a put. -/
theorem exists_of_lastPut? {value : Value} (h : lastPut? cs key = some value) :
    ∃ c ∈ cs, c.isWrite = true ∧ c.value = value := by
  obtain ⟨c, hc, rfl⟩ := Option.map_eq_some_iff.1 h
  have hmem := List.mem_filter.1 (List.mem_of_getLast? hc)
  exact ⟨c, hmem.1, (of_decide_eq_true hmem.2).1, rfl⟩

/-- A store holds what its history last put. -/
theorem get?_executeAll (cs : List Command) (key : Key) :
    (empty.executeAll cs).get? key = lastPut? cs key := by
  induction cs using List.reverseRecOn with
  | nil => simp [empty, get?, lastPut?]
  | append_singleton cs c ih =>
    rw [executeAll_append, executeAll_cons, executeAll_nil, get?_execute, lastPut?_concat, ih]

/-- A command that does not write leaves what is stored. -/
theorem data_execute_of_not_isWrite (s : Store) (h : c.isWrite = false) :
    (s.execute c).1.data = s.data := by
  unfold execute
  cases hop : c.op with
  | put => simp [Command.isWrite, hop] at h
  | get => rfl
  | scan => rfl
  | none => rfl

/-- A put yields the value that it stores. -/
theorem execute_of_isWrite (s : Store) (h : c.isWrite = true) : (s.execute c).2 = c.value := by
  have hop : c.op = .put := by simpa [Command.isWrite] using h
  simp [execute, hop]

/-- A scan asks for as many keys as its command says. -/
theorem result_scan (s : Store) (key : Key) {count : Nat} (h : count < UInt64.size) :
    s.result (.scan key count) = s.scan key count := by
  have hcount : scanCount (.ofText (toString count)) = count := by
    rw [scanCount, Value.text_ofText, Decimal.Count.trim_toString,
      Decimal.Count.read?_toString h, Option.getD_some]
  change s.scan key (scanCount (.ofText (toString count))) = _
  rw [hcount]

/-- The stored entries from a key on, with the texts that a scan reads. -/
def textsFrom (s : Store) (key : Key) : List (Key × String) :=
  (s.data.toList.filter fun entry => decide (key ≤ entry.1)).map fun entry =>
    (entry.1, entry.2.text)

theorem scan_eq (s : Store) (key : Key) (count : Nat) :
    s.scan key count =
      .ofText (",".intercalate
        (((s.textsFrom key).take (min count (s.textsFrom key).length)).map Prod.snd)) := by
  rw [← List.take_eq_take_min]
  simp [scan, valuesFrom, textsFrom, List.map_take, Function.comp_def]

theorem mem_textsFrom {entry : Key × String} :
    entry ∈ s.textsFrom key ↔
      key ≤ entry.1 ∧ ∃ value, s.get? entry.1 = some value ∧ value.text = entry.2 := by
  simp only [textsFrom, List.mem_map, List.mem_filter, decide_eq_true_eq, Prod.exists,
    Std.ExtTreeMap.mem_toList_iff_getElem?_eq_some, get?]
  constructor
  · rintro ⟨k, value, ⟨hvalue, hkey⟩, rfl⟩
    exact ⟨hkey, value, hvalue, rfl⟩
  · rintro ⟨hkey, value, hvalue, htext⟩
    exact ⟨entry.1, value, ⟨hvalue, hkey⟩, by rw [htext]⟩

/-- The entries from a key on are a walk through the history. -/
theorem walk_textsFrom (h : PutsTexts cs) (key : Key) :
    Walk cs key ((empty.executeAll cs).textsFrom key) where
  increasing := by
    refine List.pairwise_map.2 (List.Pairwise.filter _ ?_)
    refine Std.ExtTreeMap.ordered_keys_toList.imp ?_
    intro a b hab
    exact Int.compare_eq_lt.1 hab
  mem_iff := by
    intro k text
    rw [mem_textsFrom, get?_executeAll]
    refine and_congr_right fun _ => ⟨?_, fun hput => ⟨_, hput, Value.text_ofText text⟩⟩
    rintro ⟨value, hput, htext⟩
    obtain ⟨c, hc, hwrite, rfl⟩ := exists_of_lastPut? hput
    obtain ⟨put, hvalue⟩ := h c hc hwrite
    rw [hvalue, Value.text_ofText] at htext
    rw [hput, hvalue, htext]

/-- The store equals its history. After any commands that put texts, a key holds what was last
put there, which a get yields, or NIL; the commands are counted; a further put yields its value,
and any other command leaves what is stored and yields what it would have yielded just before; and
a scan for a number of keys that fits in 64 bits yields the texts at that many keys of the walk
from its key on, or at all of them if there are fewer, joined by commas. -/
theorem equals_history (cs : List Command) (h : PutsTexts cs) :
    let s := empty.executeAll cs
    (∀ key, s.get? key = lastPut? cs key ∧
      (s.execute (.get key)).2 = (lastPut? cs key).getD .nil) ∧
    s.applied = cs.length ∧
    (∀ c, (c.op = .put → (s.execute c).2 = c.value) ∧
      (c.op ≠ .put → (s.execute c).1.data = s.data ∧ (s.execute c).2 = s.result c)) ∧
    ∀ key count, count < UInt64.size →
      ∃ entries, Walk cs key entries ∧
        let texts := (entries.take (min count entries.length)).map Prod.snd
        s.result (.scan key count) = .ofText (",".intercalate texts) ∧
        (s.execute (.scan key count)).2 = .ofText (",".intercalate texts) := by
  intro s
  refine ⟨?_, ?_, ?_, ?_⟩
  · intro key
    have hget : s.get? key = lastPut? cs key := get?_executeAll cs key
    refine ⟨hget, ?_⟩
    rw [execute_of_not_isWrite s rfl, ← hget]
    rfl
  · rw [applied_executeAll]
    exact Nat.zero_add _
  · intro c
    refine ⟨fun hop => execute_of_isWrite s (decide_eq_true hop), fun hop => ?_⟩
    have hwrite : c.isWrite = false := decide_eq_false hop
    exact ⟨data_execute_of_not_isWrite s hwrite, execute_of_not_isWrite s hwrite⟩
  · intro key count hcount
    have hscan := (result_scan s key hcount).trans (scan_eq s key count)
    refine ⟨s.textsFrom key, walk_textsFrom h key, hscan, ?_⟩
    rw [execute_of_not_isWrite s rfl, hscan]

/-- After two puts at one key the later one counts, and the longest scan walks all keys. -/
theorem equals_history_overwritten :
    let cs : List Command := [.put 5 "b", .put (-1) "a", .get 5, .put 5 "é"]
    let count := UInt64.size - 1
    PutsTexts cs ∧ (empty.executeAll cs).get? 5 = some (.ofText "é") ∧
      ∃ entries, Walk cs (-3) entries ∧
        ((empty.executeAll cs).execute (.scan (-3) count)).2 =
          .ofText (",".intercalate ((entries.take (min count entries.length)).map Prod.snd)) := by
  intro cs count
  have htexts : PutsTexts cs := by
    intro c hc hwrite
    simp only [cs, List.mem_cons, List.not_mem_nil, or_false] at hc
    rcases hc with rfl | rfl | rfl | rfl
    · exact ⟨"b", rfl⟩
    · exact ⟨"a", rfl⟩
    · exact absurd hwrite (by decide)
    · exact ⟨"é", rfl⟩
  obtain ⟨hget, -, -, hscan⟩ := equals_history cs htexts
  obtain ⟨entries, hwalk, -, hyield⟩ := hscan (-3) count (by decide)
  exact ⟨htexts, (hget 5).1.trans rfl, entries, hwalk, hyield⟩

end Store

end WitnessReplication
