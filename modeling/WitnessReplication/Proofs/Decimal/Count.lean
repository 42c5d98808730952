import WitnessReplication.Decimal.Count
import WitnessReplication.Text.Blank

/-!
# Reading back counts

The decimal digits of a number spell that number (`ofDigits_toDigits`), and the text of a count
that fits in 64 bits is read as that count (`read?_toString`).
-/

namespace WitnessReplication

namespace Text.Blank

/-- A decimal digit is not blank. -/
theorem not_isBlank_of_isDigit {c : Char} (h : c.isDigit = true) : isBlank c = false := by
  have hrange : 48 ≤ c.toNat ∧ c.toNat ≤ 57 := by
    simpa [Char.isDigit, Char.le_def, UInt32.le_iff_toNat_le] using h
  simp [isBlank]
  omega

/-- Characters of which none is blank have nothing to trim. -/
theorem trimChars_eq_self {cs : List Char} (h : ∀ c ∈ cs, isBlank c = false) :
    trimChars cs = cs := by
  have hdrop : ∀ cs : List Char, (∀ c ∈ cs, isBlank c = false) → cs.dropWhile isBlank = cs := by
    intro cs h
    cases cs with
    | nil => rfl
    | cons c cs => simp [h c List.mem_cons_self]
  rw [trimChars, hdrop cs h, hdrop cs.reverse (by simpa using h), List.reverse_reverse]

end Text.Blank

namespace Decimal.Count

/-- The decimal digits of a number spell it. -/
theorem ofDigits_toDigits (n : Nat) : ofDigits (Nat.toDigits 10 n) = n :=
  Nat.ofDigitChars_toDigits (by decide) (by decide)

theorem isDigit_of_mem_toDigits {n : Nat} {c : Char} (h : c ∈ Nat.toDigits 10 n) :
    c.isDigit = true :=
  Nat.isDigit_of_mem_toDigits (by decide) (by decide) h

/-- Digits have no plus sign to take away. -/
theorem digitsOf_eq_self {digits : List Char} (h : ∀ c ∈ digits, c.isDigit = true) :
    digitsOf digits = digits := by
  unfold digitsOf
  split
  · exact absurd (h '+' List.mem_cons_self) (by decide)
  · rfl

/-- The text of a count that fits in 64 bits is read as that count. -/
theorem read?_toString {n : Nat} (h : n < UInt64.size) : read? (toString n) = some n := by
  have hchars : (toString n).toList = Nat.toDigits 10 n := Nat.toList_repr
  have hdigits : ∀ c ∈ Nat.toDigits 10 n, c.isDigit = true := fun c => isDigit_of_mem_toDigits
  unfold read?
  rw [hchars, digitsOf_eq_self hdigits]
  dsimp only
  rw [ofDigits_toDigits]
  exact if_pos ⟨Nat.toDigits_ne_nil, List.all_eq_true.2 hdigits, h⟩

/-- The text of a count has no blanks at its ends. -/
theorem trim_toString (n : Nat) : Text.Blank.trim (toString n) = toString n := by
  have hblank : ∀ c ∈ (toString n).toList, Text.Blank.isBlank c = false := by
    intro c hc
    have hchars : (toString n).toList = Nat.toDigits 10 n := Nat.toList_repr
    exact Text.Blank.not_isBlank_of_isDigit (isDigit_of_mem_toDigits (hchars ▸ hc))
  rw [Text.Blank.trim, Text.Blank.trimChars_eq_self hblank, String.ofList_toList]

end Decimal.Count

end WitnessReplication
