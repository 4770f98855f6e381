/-!
# Numbers in text

Whole numbers in decimal notation, read and written.
-/

namespace Leveret.Text

def digitsValue (start : Nat) (digits : List Char) : Nat :=
  digits.foldl (fun value c => 10 * value + (c.toNat - '0'.toNat)) start

def readSign : List Char → Bool × List Char
  | '-' :: rest => (true, rest)
  | '+' :: rest => (false, rest)
  | text => (false, text)

/-- A number is digits, at least one, with a sign in front if wanted. -/
def readInteger? (text : List Char) : Option Int :=
  let (negative, digits) := readSign text
  if digits ≠ [] ∧ digits.all Char.isDigit then
    let value := (digitsValue 0 digits : Int)
    some (if negative then -value else value)
  else none

def writeNatural (n : Nat) : List Char := Nat.toDigits 10 n

def writeInteger (n : Int) : List Char :=
  if n < 0 then '-' :: writeNatural n.natAbs else writeNatural n.natAbs

end Leveret.Text
