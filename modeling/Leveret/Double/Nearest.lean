import Leveret.Double.Basic

/-!
# The nearest double

The double closest to a fraction or to a decimal number. Of two that are equally close, the one
with an even last bit is taken; from the midpoint beyond the largest double on it is infinity.
-/

namespace Leveret

/-- The quotient rounded to the nearest whole number, a half to the even one. -/
def roundHalfEven (numerator denominator : Nat) : Nat :=
  let floor := numerator / denominator
  let twice := 2 * (numerator % denominator)
  if twice < denominator ∨ (twice = denominator ∧ floor % 2 = 0) then floor else floor + 1

/-- A number `digits * 10 ^ exponent`. -/
structure Decimal where
  digits : Nat
  exponent : Int
deriving DecidableEq, Inhabited

namespace Double

/-- The magnitude of the double nearest to `numerator / denominator`. The binade is chosen by the
floor; rounding up to the end of it gives the first double of the next. -/
def nearestMagnitude (numerator denominator : Nat) : Nat :=
  let shift := (numerator * unit / denominator).log2 - 52
  min (shift * 0x10000000000000 + roundHalfEven (numerator * unit) (denominator * Nat.pow 2 shift))
    infinityMagnitude

def digitBound (n : Nat) : Nat := n.log2 / 3 + 1

/-- The first two cases only keep the powers of ten small: there the answer is known. -/
def decimalMagnitude (d : Decimal) : Nat :=
  if d.digits = 0 ∨ d.exponent + digitBound d.digits ≤ -324 then 0
  else if 310 ≤ d.exponent then infinityMagnitude
  else nearestMagnitude (d.digits * Nat.pow 10 d.exponent.toNat)
    (Nat.pow 10 (-d.exponent).toNat)

def ofDecimal (negative : Bool) (d : Decimal) : Double :=
  ofMagnitude negative (decimalMagnitude d)

end Double

end Leveret
