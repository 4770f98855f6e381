import Leveret.Double.Nearest
import Leveret.Text.Number

/-!
# The shortest spelling of a double

A double is written with the fewest digits that read back as the same double, and of those with
the ones nearest to it. There is never an exponent: zeros fill the places up to the point.
-/

namespace Leveret

open Text

namespace Decimal

def strip : (fuel : Nat) → Decimal → Decimal
  | 0, d => d
  | fuel + 1, d =>
    if d.digits % 10 = 0 then strip fuel ⟨d.digits / 10, d.exponent + 1⟩ else d

def positional (d : Decimal) : List Char :=
  let digits := writeNatural d.digits
  let places := (-d.exponent).toNat
  if places = 0 then digits ++ List.replicate d.exponent.toNat '0'
  else
    let padded := List.replicate (places + 1 - digits.length) '0' ++ digits
    let whole := padded.length - places
    padded.take whole ++ '.' :: padded.drop whole

end Decimal

namespace Double

def leadingExponent (scaled : Nat) : Int :=
  if unit ≤ scaled then ((writeNatural (scaled / unit)).length : Int) - 1
  else -((writeNatural ((unit - 1) / scaled)).length : Int)

/-- The decimal numbers just below and just above `scaled / unit` whose last digit stands for
`10 ^ exponent`, the nearer one first. -/
def neighbours (scaled : Nat) (exponent : Int) : List Decimal :=
  let numerator := scaled * Nat.pow 10 (-exponent).toNat
  let denominator := unit * Nat.pow 10 exponent.toNat
  let below := numerator / denominator
  if 2 * (numerator % denominator) < denominator then [⟨below, exponent⟩, ⟨below + 1, exponent⟩]
  else [⟨below + 1, exponent⟩, ⟨below, exponent⟩]

def inFull (scaled : Nat) : Decimal := ⟨scaled * Nat.pow 5 1074, -1074⟩

/-- Searches the grids of `count`, `count + 1`, … digits for a number with the given magnitude;
the double itself, in full, if `fuel` grids do not suffice. -/
def searchGrids (magnitude scaled : Nat) (leading : Int) : (fuel count : Nat) → Decimal
  | 0, _ => inFull scaled
  | fuel + 1, count =>
    ((neighbours scaled (leading + 1 - count)).find? (decimalMagnitude · == magnitude)).getD
      (searchGrids magnitude scaled leading fuel (count + 1))

def shortest (x : Double) : Decimal :=
  let d := searchGrids x.magnitude x.scaled (leadingExponent x.scaled) 17 1
  d.strip d.digits.log2

def format (x : Double) : List Char :=
  if x.isNaN then ['N', 'a', 'N']
  else
    let sign := if x.isNegative then ['-'] else []
    if !x.isFinite then sign ++ ['i', 'n', 'f']
    else if x.magnitude = 0 then sign ++ ['0', '.', '0']
    else
      let text := x.shortest.positional
      sign ++ if text.contains '.' then text else text ++ ['.', '0']

end Double

end Leveret
