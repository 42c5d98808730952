import WitnessReplication.Proofs.Json.Strings

/-!
# Reading back values

The text of a value is read as that value (`read?_write`), for every value that can be written
without loss: its integers fit in 64 bits, its strings are whole, and its names are spelt as
themselves.

## Implementation notes

The readers are bounded by a number of calls. `ReadsBack` asks for no more calls than the value
has characters; what an array or an object adds pays for the calls that its parts add.
-/

namespace WitnessReplication.Json

variable {c : Char} {cs rest : List Char} {j : Json} {items : List Json}
  {members : List (Name × Json)} {bound : Nat}

/-- A value that can be written without loss. -/
inductive Writable : Json → Prop
  | null : Writable .null
  | bool (value : Bool) : Writable (.bool value)
  | integer (negative : Bool) {n : Nat} (h : n < UInt64.size) :
      Writable (.number (.integer negative n))
  | text (s : String) : Writable (.text (some s))
  | array {items : List Json} (h : ∀ item ∈ items, Writable item) : Writable (.array items)
  | object {members : List (Name × Json)} (names : ∀ member ∈ members, member.1.IsLiteral)
      (values : ∀ member ∈ members, Writable member.2) : Writable (.object members)

/-- A written value is read as itself, whatever may stand after it, with a call for each of its
characters. It does not begin like a blank or the end of an array. -/
structure ReadsBack (j : Json) : Prop where
  begins : ∃ c cs, j.writeChars = c :: cs ∧ isSpace c = false ∧ c ≠ ']'
  reads : ∀ (bound : Nat) (rest : List Char), j.writeChars.length ≤ bound → Ends rest →
    readValue bound (j.writeChars ++ rest) = some (j, rest)

theorem skipSpace_cons (h : isSpace c = false) : skipSpace (c :: cs) = c :: cs := by
  simp [skipSpace, h]

section Scalars

theorem readsBack_null : ReadsBack .null where
  begins := ⟨_, _, rfl, by decide, by decide⟩
  reads
    | 0, _, hbound, _ => absurd hbound (by decide)
    | _ + 1, _, _, _ => rfl

theorem readsBack_bool (value : Bool) : ReadsBack (.bool value) where
  begins := by cases value <;> exact ⟨_, _, rfl, by decide, by decide⟩
  reads
    | 0, _, hbound, _ => by cases value <;> exact absurd hbound (by decide)
    | _ + 1, _, _, _ => by cases value <;> rfl

theorem readsBack_text (s : String) : ReadsBack (.text (some s)) where
  begins := ⟨_, _, rfl, by decide, by decide⟩
  reads bound rest hbound _ := by
    have htext := readText_writeText s rest
    cases bound with
    | zero => simp [writeChars, writeText] at hbound
    | succ bound =>
      simp only [writeChars, writeText, List.cons_append] at htext ⊢
      rw [readValue, skipSpace_cons (by decide)]
      simp only [htext, Option.map_some]

/-- A written integer begins with a minus sign or a digit. -/
theorem writeNumeral_integer (negative : Bool) (n : Nat) :
    ∃ c cs, writeNumeral (.integer negative n) = c :: cs ∧ (c = '-' ∨ c.isDigit = true) := by
  cases negative with
  | true => exact ⟨'-', _, rfl, .inl rfl⟩
  | false =>
    have hne : Nat.toDigits 10 n ≠ [] := Nat.toDigits_ne_nil
    obtain ⟨c, cs, hcs⟩ := List.exists_cons_of_ne_nil hne
    exact ⟨c, cs, hcs, .inr (Decimal.Count.isDigit_of_mem_toDigits (hcs ▸ List.mem_cons_self))⟩

theorem readsBack_integer (negative : Bool) {n : Nat} (hn : n < UInt64.size) :
    ReadsBack (.number (.integer negative n)) := by
  obtain ⟨c, cs, hcs, hc⟩ := writeNumeral_integer negative n
  have hspace : isSpace c = false := by
    refine Bool.eq_false_iff.2 fun hspace => ?_
    simp only [isSpace, Bool.or_eq_true, beq_iff_eq] at hspace
    rcases hspace with ((rfl | rfl) | rfl) | rfl <;> exact absurd hc (by decide)
  refine ⟨⟨c, cs, hcs, hspace, ?_⟩, ?_⟩
  · rintro rfl
    exact absurd hc (by decide)
  · intro bound rest hbound hrest
    have hnumeral := readNumeral_integer hn negative hrest
    simp only [writeChars, hcs, List.cons_append] at hbound hnumeral ⊢
    cases bound with
    | zero => simp at hbound
    | succ bound =>
      have hfirst : ∀ d ds, c :: (cs ++ rest) = d :: ds → d = '-' ∨ d.isDigit = true :=
        fun d ds h => (List.cons.inj h).1 ▸ hc
      rw [readValue, skipSpace_cons hspace]
      -- No other kind of value begins with a minus sign or a digit.
      split
      · rename_i h; exact absurd (hfirst _ _ h) (by decide)
      · rename_i h; exact absurd (hfirst _ _ h) (by decide)
      · rename_i h; exact absurd (hfirst _ _ h) (by decide)
      · rename_i h; exact absurd (hfirst _ _ h) (by decide)
      · rename_i h; exact absurd (hfirst _ _ h) (by decide)
      · rename_i h; exact absurd (hfirst _ _ h) (by decide)
      · rw [hnumeral, Option.map_some]

end Scalars

section Parts

/-- A written name begins with a quote. -/
theorem skipSpace_writeText (text : Text) (cs : List Char) :
    skipSpace (writeText text ++ cs) = writeText text ++ cs := by
  cases text with
  | none => rfl
  | some s => rfl

/-- Written items begin like the first of them. -/
theorem begins_writeItems (item : Json) (items : List Json) (h : item.ReadsBack) :
    ∃ c cs, writeItems (item :: items) = c :: cs ∧ isSpace c = false ∧ c ≠ ']' := by
  obtain ⟨c, cs, hcs, hc⟩ := h.begins
  cases items with
  | nil => exact ⟨c, cs ++ [']'], by simp [writeItems, hcs], hc⟩
  | cons next items =>
    exact ⟨c, cs ++ ',' :: writeItems (next :: items), by simp [writeItems, hcs], hc⟩

/-- Written members begin with the quote of a name. -/
theorem begins_writeMembers (member : Name × Json) (members : List (Name × Json)) :
    ∃ cs, writeMembers (member :: members) = '"' :: cs := by
  obtain ⟨⟨text, plain⟩, value⟩ := member
  cases text with
  | none => cases members <;> exact ⟨_, rfl⟩
  | some s => cases members <;> exact ⟨_, rfl⟩

/-- Written items are read as themselves. -/
theorem readItems_writeItems (hne : items ≠ []) (h : ∀ item ∈ items, ReadsBack item)
    (hbound : (writeItems items).length ≤ bound) (rest : List Char) :
    readItems bound (writeItems items ++ rest) = some (items, rest) := by
  induction items generalizing bound with
  | nil => exact absurd rfl hne
  | cons item items ih =>
    have hitem := (h item List.mem_cons_self).reads
    cases items with
    | nil =>
      simp only [writeItems, List.length_append, List.length_singleton] at hbound
      cases bound with
      | zero => omega
      | succ bound =>
        simp only [writeItems, List.append_assoc, List.singleton_append]
        rw [readItems, hitem bound _ (by omega) (ends_cons (by simp))]
        simp only [skipSpace_cons (show isSpace ']' = false by decide)]
    | cons next items =>
      simp only [writeItems, List.length_append, List.length_cons] at hbound
      cases bound with
      | zero => omega
      | succ bound =>
        have hnext : readItems bound (writeItems (next :: items) ++ rest) =
            some (next :: items, rest) :=
          ih (by simp) (fun item hmem => h item (List.mem_cons_of_mem _ hmem)) (by omega)
        simp only [writeItems, List.append_assoc, List.cons_append]
        rw [readItems, hitem bound _ (by omega) (ends_cons (by simp))]
        simp only [skipSpace_cons (show isSpace ',' = false by decide), hnext, Option.map_some]

/-- Written members are read as themselves. -/
theorem readMembers_writeMembers (hne : members ≠ [])
    (hnames : ∀ member ∈ members, member.1.IsLiteral)
    (hvalues : ∀ member ∈ members, ReadsBack member.2)
    (hbound : (writeMembers members).length ≤ bound) (rest : List Char) :
    readMembers bound (writeMembers members ++ rest) = some (members, rest) := by
  induction members generalizing bound with
  | nil => exact absurd rfl hne
  | cons member members ih =>
    obtain ⟨name, value⟩ := member
    have hname := readName_writeText (hnames (name, value) List.mem_cons_self)
    have hvalue : value.ReadsBack := hvalues (name, value) List.mem_cons_self
    cases members with
    | nil =>
      simp only [writeMembers, List.length_append, List.length_cons, List.length_nil] at hbound
      cases bound with
      | zero => omega
      | succ bound =>
        simp only [writeMembers, List.append_assoc, List.cons_append, List.nil_append]
        rw [readMembers, skipSpace_writeText, hname]
        simp only [skipSpace_cons (show isSpace ':' = false by decide)]
        rw [hvalue.reads bound _ (by omega) (ends_cons (by simp))]
        simp only [skipSpace_cons (show isSpace '\x7d' = false by decide)]
    | cons next members =>
      simp only [writeMembers, List.length_append, List.length_cons] at hbound
      cases bound with
      | zero => omega
      | succ bound =>
        have hnext : readMembers bound (writeMembers (next :: members) ++ rest) =
            some (next :: members, rest) :=
          ih (by simp) (fun member hmem => hnames member (List.mem_cons_of_mem _ hmem))
            (fun member hmem => hvalues member (List.mem_cons_of_mem _ hmem)) (by omega)
        simp only [writeMembers, List.append_assoc, List.cons_append]
        rw [readMembers, skipSpace_writeText, hname]
        simp only [skipSpace_cons (show isSpace ':' = false by decide)]
        rw [hvalue.reads bound _ (by omega) (ends_cons (by simp))]
        simp only [skipSpace_cons (show isSpace ',' = false by decide), hnext, Option.map_some]

theorem readsBack_array (h : ∀ item ∈ items, ReadsBack item) : ReadsBack (.array items) where
  begins := ⟨_, _, rfl, by decide, by decide⟩
  reads bound rest hbound _ := by
    simp only [writeChars, List.length_cons, List.cons_append] at hbound ⊢
    cases bound with
    | zero => omega
    | succ bound =>
      rw [readValue, skipSpace_cons (by decide)]
      cases items with
      | nil =>
        simp only [writeItems, List.cons_append, List.nil_append]
        rw [skipSpace_cons (by decide)]
        rfl
      | cons item items =>
        have hitems := readItems_writeItems (by simp) h (Nat.le_of_succ_le_succ hbound) rest
        obtain ⟨c, cs, hcs, hspace, hclose⟩ := begins_writeItems item items (h item (by simp))
        simp only [hcs, List.cons_append] at hitems ⊢
        rw [skipSpace_cons hspace]
        split
        · rename_i heq
          exact absurd (List.cons.inj heq).1 hclose
        · rw [hitems, Option.map_some]

theorem readsBack_object (hnames : ∀ member ∈ members, member.1.IsLiteral)
    (hvalues : ∀ member ∈ members, ReadsBack member.2) : ReadsBack (.object members) where
  begins := ⟨_, _, rfl, by decide, by decide⟩
  reads bound rest hbound _ := by
    simp only [writeChars, List.length_cons, List.cons_append] at hbound ⊢
    cases bound with
    | zero => omega
    | succ bound =>
      rw [readValue, skipSpace_cons (by decide)]
      cases members with
      | nil =>
        simp only [writeMembers, List.cons_append, List.nil_append]
        rw [skipSpace_cons (by decide)]
        rfl
      | cons member members =>
        have hmembers := readMembers_writeMembers (by simp) hnames hvalues
          (Nat.le_of_succ_le_succ hbound) rest
        obtain ⟨cs, hcs⟩ := begins_writeMembers member members
        simp only [hcs, List.cons_append] at hmembers ⊢
        rw [skipSpace_cons (by decide)]
        split
        · rename_i heq
          exact absurd (List.cons.inj heq).1 (by decide)
        · rw [hmembers, Option.map_some]

end Parts

/-- Every value that can be written without loss is read back. -/
theorem Writable.readsBack (h : j.Writable) : j.ReadsBack := by
  induction h with
  | null => exact readsBack_null
  | bool value => exact readsBack_bool value
  | integer negative hn => exact readsBack_integer negative hn
  | text s => exact readsBack_text s
  | array _ ih => exact readsBack_array ih
  | object hnames _ ih => exact readsBack_object hnames ih

/-- The text of a value is read as that value. -/
theorem Writable.read?_write (h : j.Writable) : read? j.write = some j := by
  have hread := h.readsBack.reads (2 * j.writeChars.length + 2) [] (by omega) ends_nil
  rw [List.append_nil] at hread
  rw [read?, write, String.toList_ofList, readChars?, hread]
  rfl

end WitnessReplication.Json
