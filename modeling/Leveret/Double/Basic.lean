/-!
# Doubles

A double is its 64 bits: a sign, an exponent of eleven bits and a fraction of fifty-two. Keeping
the bits tells zeros of different sign and the many NaNs apart. Arithmetic is that of `Float`;
order and equality are spelled out on the bits.
-/

namespace Leveret

structure Double where
  bits : UInt64
deriving DecidableEq, Inhabited

namespace Double

/-! ## The parts -/

def isNegative (x : Double) : Bool := 0x8000000000000000 ≤ x.bits.toNat

/-- The bits below the sign. Magnitudes of finite doubles are ordered as their values are. -/
def magnitude (x : Double) : Nat := x.bits.toNat % 0x8000000000000000

/-- The magnitude of an infinity. Beyond it are the NaNs. -/
def infinityMagnitude : Nat := 0x7FF0000000000000

def isNaN (x : Double) : Bool := infinityMagnitude < x.magnitude

def isFinite (x : Double) : Bool := x.magnitude < infinityMagnitude

def ofMagnitude (negative : Bool) (magnitude : Nat) : Double :=
  ⟨UInt64.ofNat (magnitude + if negative then 0x8000000000000000 else 0)⟩

def zero : Double := ⟨0⟩

def infinity (negative : Bool) : Double := ofMagnitude negative infinityMagnitude

def nan (negative : Bool) : Double := ofMagnitude negative (infinityMagnitude + 0x8000000000000)

/-- Finite doubles are the multiples of `1 / unit` that the format can hold. -/
def unit : Nat := Nat.pow 2 1074

def scaled (x : Double) : Nat :=
  let exponent := x.magnitude / 0x10000000000000
  let fraction := x.magnitude % 0x10000000000000
  if exponent = 0 then fraction
  else (0x10000000000000 + fraction) * Nat.pow 2 (exponent - 1)

/-! ## Comparison -/

def rank (x : Double) : Int := if x.isNegative then -x.magnitude else x.magnitude

/-- A NaN is in order with nothing, itself included. -/
def ordered (x y : Double) : Bool := !x.isNaN && !y.isNaN

def equal (x y : Double) : Bool := x.ordered y && x.rank == y.rank

def less (x y : Double) : Bool := x.ordered y && decide (x.rank < y.rank)

def atMost (x y : Double) : Bool := x.ordered y && decide (x.rank ≤ y.rank)

/-! ## Arithmetic -/

def toFloat (x : Double) : Float := Float.ofBits x.bits

def ofFloat (f : Float) : Double := ⟨f.toBits⟩

def add (x y : Double) : Double := ofFloat (x.toFloat + y.toFloat)

def sub (x y : Double) : Double := ofFloat (x.toFloat - y.toFloat)

def mul (x y : Double) : Double := ofFloat (x.toFloat * y.toFloat)

def div (x y : Double) : Double := ofFloat (x.toFloat / y.toFloat)

def neg (x : Double) : Double := ⟨x.bits ^^^ 0x8000000000000000⟩

end Double

end Leveret
