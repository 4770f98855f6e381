import Leveret.Double.Shortest

/-!
# The exact spelling of a double

Block code writes a double so that no bit is lost: as a decimal number when it is below a thousand
million and has at most ten binary places, and as its bits in hexadecimal otherwise.
-/

namespace Leveret

open Text

namespace Double

/-- The number of binary places that a decimal spelling may have, and of decimal places that it is
written with before the zeros at its end are dropped. -/
def exactPlaces : Nat := 10

def exactUnit : Nat := Nat.pow 2 (1074 - exactPlaces)

def hasDecimalSpelling (x : Double) : Bool :=
  x.isFinite && decide (x.scaled < 1000000000 * unit) && x.scaled % exactUnit == 0

/-- The double with so many decimal places, rounded to the nearest, a half to the even digit. -/
def fixed (places : Nat) (x : Double) : List Char :=
  (if x.isNegative then ['-'] else []) ++
    Decimal.positional ⟨roundHalfEven (x.scaled * Nat.pow 10 places) unit, -places⟩

def trimZeros (text : List Char) : List Char :=
  let kept := (text.reverse.dropWhile (· = '0')).reverse
  if kept.getLast? = some '.' then kept ++ ['0'] else kept

def decimalSpelling (x : Double) : List Char := trimZeros (x.fixed exactPlaces)

def hexDigit (n : Nat) : Char := (Nat.digitChar n).toUpper

def hexDigits : (count : Nat) → Nat → List Char
  | 0, _ => []
  | count + 1, n => hexDigits count (n / 16) ++ [hexDigit (n % 16)]

def exact (x : Double) : List Char :=
  if x.hasDecimalSpelling then x.decimalSpelling
  else '0' :: 'x' :: hexDigits 16 x.bits.toNat

end Double

end Leveret
