import Mathlib.Data.List.Basic
import Mathlib.Tactic.SplitIfs
import WitnessReplication.Json.Reader
import WitnessReplication.Json.Writer
import WitnessReplication.Proofs.Decimal.Count

/-!
# Reading back strings and numbers

A written string is read as itself whatever stands after it (`readText_writeText`), escapes
included; so is a written name, if none of its characters needs an escape
(`readName_writeText`). A written integer is read as itself unless what stands after it goes on
with the number (`readNumeral_integer`).
-/

namespace WitnessReplication.Json

open WitnessReplication.Decimal

variable {c : Char} {cs rest : List Char}

/-- Whether a string is written as itself: no character of it needs an escape. -/
def isLiteral (s : String) : Bool := s.toList.all fun c => writeChar c = [c]

/-- The name is spelt as itself. -/
def Name.IsLiteral (name : Name) : Prop :=
  name.plain = true ∧ ∃ s, name.text = some s ∧ isLiteral s = true

/-- Nothing stands after a value, or what may stand there in an array or an object. -/
def Ends (rest : List Char) : Prop :=
  ∀ c ∈ rest.head?, c = ',' ∨ c = ']' ∨ c = '\x7d'

theorem ends_nil : Ends [] := by simp [Ends]

theorem ends_cons (h : c = ',' ∨ c = ']' ∨ c = '\x7d') : Ends (c :: rest) := by simpa [Ends] using h

section Strings

theorem hexUnit?_hexDigit :
    ∀ n < 32, hexUnit? '0' '0' (hexDigit (n / 16)) (hexDigit n) = some n := by
  decide

/-- A written character is read as itself. -/
theorem readString_writeChar (c : Char) (rest : List Char) :
    readString none (writeChar c ++ rest) = (readString none rest).map (consChar (some c)) := by
  unfold writeChar
  split_ifs with hquote hslash hb ht hn hf hr hcontrol
  · subst hquote; rfl
  · subst hslash; rfl
  · subst hb; rfl
  · subst ht; rfl
  · subst hn; rfl
  · subst hf; rfl
  · subst hr; rfl
  · have hunit := hexUnit?_hexDigit c.toNat hcontrol
    have hhigh : isHigh c.toNat = false := by simp [isHigh]; omega
    have hlow : isLow c.toNat = false := by simp [isLow]; omega
    simp only [List.cons_append, List.nil_append]
    rw [readString, hunit]
    simp [hhigh, hlow]
  · simp only [List.cons_append, List.nil_append]
    rw [readString]
    · simp [hcontrol]
    all_goals simp_all

/-- Written characters are read up to the closing quote. -/
theorem readString_flatMap (cs rest : List Char) :
    readString none (cs.flatMap writeChar ++ '"' :: rest) = some (some cs, rest) := by
  induction cs with
  | nil => rfl
  | cons c cs ih =>
    rw [List.flatMap_cons, List.append_assoc, readString_writeChar, ih]
    rfl

/-- A written string is read as itself. -/
theorem readText_writeText (s : String) (rest : List Char) :
    readText (writeText (some s) ++ rest) = some (some s, rest) := by
  simp only [writeText, List.cons_append, List.append_assoc, List.nil_append, readText,
    readString_flatMap, Option.map_some, String.ofList_toList]

/-- A character that needs no escape is neither a quote nor a backslash. -/
theorem ne_of_writeChar (h : writeChar c = [c]) : c ≠ '"' ∧ c ≠ '\\' := by
  constructor
  · rintro rfl
    exact absurd h (by decide)
  · rintro rfl
    exact absurd h (by decide)

theorem flatMap_writeChar (h : ∀ c ∈ cs, writeChar c = [c]) : cs.flatMap writeChar = cs := by
  induction cs with
  | nil => rfl
  | cons c cs ih =>
    rw [List.flatMap_cons, h c List.mem_cons_self, ih fun c hc => h c (List.mem_cons_of_mem _ hc),
      List.singleton_append]

/-- A name that is spelt as itself is read as itself. -/
theorem readName_writeText {name : Name} (h : name.IsLiteral) (rest : List Char) :
    readName (writeText name.text ++ rest) = some (name, rest) := by
  obtain ⟨hplain, s, hs, hliteral⟩ := h
  have hchars : ∀ c ∈ s.toList, writeChar c = [c] := by simpa [isLiteral] using hliteral
  have hspelt : ((s.toList.flatMap writeChar ++ '"' :: rest).takeWhile (· ≠ '"')) = s.toList := by
    rw [flatMap_writeChar hchars, List.takeWhile_append_of_pos]
    · simp
    · intro c hc
      simpa using (ne_of_writeChar (hchars c hc)).1
  have hbare : s.toList.contains '\\' = false := by
    refine Bool.eq_false_iff.2 fun hslash => ?_
    exact (ne_of_writeChar (hchars _ (List.contains_iff_mem.1 hslash))).2 rfl
  obtain ⟨text, plain⟩ := name
  obtain rfl : plain = true := hplain
  obtain rfl : text = some s := hs
  simp only [writeText, List.cons_append, List.append_assoc, List.nil_append, readName,
    readString_flatMap, Option.map_some, String.ofList_toList, hspelt, hbare, Bool.not_false]

end Strings

section Numbers

/-- Only the number zero is written with a zero in front. -/
theorem head?_toDigits {n : Nat} (h : 0 < n) : (Nat.toDigits 10 n).head? ≠ some '0' := by
  induction n using Nat.strongRecOn with
  | ind n ih =>
    rcases Nat.lt_or_ge n 10 with hlt | hge
    · rw [Nat.toDigits_of_lt_base hlt]
      have hdigit : ∀ n < 10, 0 < n → Nat.digitChar n ≠ '0' := by decide
      simpa using hdigit n hlt h
    · rw [Nat.toDigits_of_base_le (by decide) hge,
        List.head?_append_of_ne_nil _ Nat.toDigits_ne_nil]
      exact ih (n / 10) (by omega) (by omega)

/-- Digits are read up to the end of a number. -/
theorem readDigits_append (hdigits : ∀ c ∈ cs, c.isDigit = true) (hne : cs ≠ [])
    (hrest : Ends rest) : readDigits (cs ++ rest) = some (cs, rest) := by
  have hstop : ∀ c ∈ rest.head?, c.isDigit = false := by
    intro c hc
    rcases hrest c hc with rfl | rfl | rfl <;> decide
  have htake : rest.takeWhile Char.isDigit = [] := by
    cases rest with
    | nil => rfl
    | cons c rest => simp [hstop c rfl]
  have hdrop : rest.dropWhile Char.isDigit = rest := by
    cases rest with
    | nil => rfl
    | cons c rest => simp [hstop c rfl]
  simp [readDigits, List.takeWhile_append_of_pos hdigits, List.dropWhile_append_of_pos hdigits,
    htake, hdrop, hne]

theorem readSign_writeSign (negative : Bool) (h : ∀ c ∈ cs.head?, c.isDigit = true) :
    readSign false (writeSign negative ++ cs) = (negative, cs) := by
  cases negative with
  | true => rfl
  | false =>
    cases cs with
    | nil => rfl
    | cons c cs =>
      have hdigit := h c rfl
      simp only [writeSign, readSign]
      split
      · simp_all
      · simp_all
      · rfl

theorem readFraction_of_ends (h : Ends rest) : readFraction rest = some ([], rest) := by
  unfold readFraction
  split
  · rcases h _ rfl with hc | hc | hc <;> exact absurd hc (by decide)
  · rfl

theorem readExponent_of_ends (h : Ends rest) : readExponent rest = some (none, rest) := by
  unfold readExponent
  split
  · rcases h _ rfl with hc | hc | hc <;> exact absurd hc (by decide)
  · rcases h _ rfl with hc | hc | hc <;> exact absurd hc (by decide)
  · rfl

/-- A written integer is read as itself. -/
theorem readNumeral_integer {n : Nat} (hn : n < UInt64.size) (negative : Bool) (h : Ends rest) :
    readNumeral (writeNumeral (.integer negative n) ++ rest) =
      some (.integer negative n, rest) := by
  have hdigits : ∀ c ∈ Nat.toDigits 10 n, c.isDigit = true := fun _ => Count.isDigit_of_mem_toDigits
  have hne : Nat.toDigits 10 n ≠ [] := Nat.toDigits_ne_nil
  have hhead : ∀ c ∈ (Nat.toDigits 10 n ++ rest).head?, c.isDigit = true := by
    rw [List.head?_append_of_ne_nil _ hne]
    exact fun c hc => hdigits c (List.mem_of_head? hc)
  have hzero : ¬((Nat.toDigits 10 n).head? = some '0' ∧ 1 < (Nat.toDigits 10 n).length) := by
    rintro ⟨hfirst, hlong⟩
    rcases Nat.eq_zero_or_pos n with rfl | hpos
    · exact absurd hlong (by decide)
    · exact head?_toDigits hpos hfirst
  rw [writeNumeral, writeNat, List.append_assoc, readNumeral, readSign_writeSign negative hhead]
  simp only [readDigits_append hdigits hne h, if_neg hzero, readFraction_of_ends h,
    readExponent_of_ends h, numeralOf, Count.ofDigits_toDigits]
  simp [hn]

end Numbers

end WitnessReplication.Json
