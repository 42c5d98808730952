/-!
# Quotients with fixed places

A quotient of two counts is first rounded to the nearest binary number with a 53-bit mantissa,
and that number is then written with a fixed number of decimal places. Both roundings go to the
nearest neighbour, and from the middle to the even one.
-/

namespace WitnessReplication.Decimal.Quotient

/-- The integer nearest to `num / den`; a half goes to the even neighbour. -/
def roundDiv (num den : Nat) : Nat :=
  let quotient := num / den
  let twice := 2 * (num % den)
  if den < twice ∨ (twice = den ∧ quotient % 2 = 1) then quotient + 1 else quotient

/-- A fraction of natural numbers. -/
structure Fraction where
  num : Nat
  den : Nat

/-- The fraction multiplied by `2 ^ exponent`. -/
def Fraction.shift (q : Fraction) (exponent : Int) : Fraction :=
  if 0 ≤ exponent then ⟨q.num * Nat.pow 2 exponent.toNat, q.den⟩
  else ⟨q.num, q.den * Nat.pow 2 (-exponent).toNat⟩

/-- The exponent `e` for which `q / 2 ^ e` lies from `2 ^ 52` up to `2 ^ 53`. -/
def Fraction.binaryExponent (q : Fraction) : Int :=
  let guess : Int := (q.num.log2 : Int) - (q.den.log2 : Int) - 52
  let scaled := q.shift (-guess)
  if scaled.num < Nat.pow 2 52 * scaled.den then guess - 1 else guess

/-- The nearest number to `q` whose binary mantissa has 53 bits. -/
def Fraction.toBinary (q : Fraction) : Fraction :=
  let exponent := q.binaryExponent
  let scaled := q.shift (-exponent)
  Fraction.shift ⟨roundDiv scaled.num scaled.den, 1⟩ exponent

/-- A text brought to `width` characters by zeros at its front. -/
def padZeros (width : Nat) (digits : String) : String :=
  String.ofList (List.replicate (width - digits.length) '0') ++ digits

/-- A fraction written with `places` decimal places. -/
def Fraction.fixed (places : Nat) (q : Fraction) : String :=
  let scale := Nat.pow 10 places
  let units := roundDiv (q.num * scale) q.den
  toString (units / scale) ++ "." ++ padZeros places (toString (units % scale))

/-- The quotient of two counts with `places` decimal places; nothing divided by nothing is
zero. -/
def fixed (places num den : Nat) : String :=
  if num = 0 ∨ den = 0 then Fraction.fixed places ⟨0, 1⟩
  else (Fraction.toBinary ⟨num, den⟩).fixed places

end WitnessReplication.Decimal.Quotient
