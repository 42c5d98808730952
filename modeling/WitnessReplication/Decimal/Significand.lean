import WitnessReplication.Decimal.Quotient

/-!
# Significands

A decimal number with a significand that fits in 64 bits, to be multiplied by a power of ten. Of a
longer number the first digits are kept: whole digits that no longer fit are counted in the
exponent, and fraction digits that no longer fit are dropped.

As a binary number with a 53-bit mantissa it is the product of two roundings, that of its
significand and that of its power of ten. `Significand.overflows` says when this product is out of
range.
-/

namespace WitnessReplication.Decimal

/-- The number `digits * 10 ^ exponent`. -/
structure Significand where
  digits : Nat
  exponent : Int
  deriving DecidableEq, Repr

namespace Significand

/-- Appends digits to a number as long as it fits in 64 bits; gives the digits that are left over
as well. -/
def take (n : Nat) : List Char → Nat × List Char
  | [] => (n, [])
  | c :: cs =>
    let longer := 10 * n + (c.toNat - '0'.toNat)
    if longer < UInt64.size then take longer cs else (n, c :: cs)

/-- The number with the given digits before and after its point and the given exponent. A fraction
digit is taken whenever it fits, even after whole digits that did not. -/
def ofDigits (whole fraction : List Char) (exponent : Int) : Significand :=
  let whole := take 0 whole
  let taken := take whole.1 fraction
  ⟨taken.1, exponent + (whole.2.length : Int) - ((fraction.length - taken.2.length : Nat) : Int)⟩

/-- The number with a 53-bit mantissa that is nearest to `n`, from the middle the even one. -/
def nearest (n : Nat) : Nat :=
  let unit := Nat.pow 2 (n.log2 - 52)
  Quotient.roundDiv n unit * unit

/-- The least number that rounds to `2 ^ 1024`: the midpoint between it and the largest smaller
number with a 53-bit mantissa. -/
def limit : Nat := Nat.pow 2 1024 - Nat.pow 2 970

/-- The largest exponent of a power of ten in range. -/
def maxExponent : Int := 308

/-- Whether a number is out of range. A number with a negative exponent never is. -/
def overflows (s : Significand) : Bool :=
  if s.digits = 0 ∨ s.exponent < 0 then false
  else if maxExponent < s.exponent then true
  else decide (limit ≤ nearest s.digits * nearest (Nat.pow 10 s.exponent.toNat))

end Significand

end WitnessReplication.Decimal
