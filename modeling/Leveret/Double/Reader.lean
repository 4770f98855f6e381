import Leveret.Double.Nearest
import Leveret.Text.Number

/-!
# Reading doubles

The spellings of a double: a sign if wanted, then `inf`, `infinity` or `nan` in any case, or
digits with a point and an exponent if wanted. Too large a number reads as infinity.
-/

namespace Leveret

open Text

namespace Double

def readScale? : List Char → Option Int
  | [] => some 0
  | c :: rest => if c = 'e' ∨ c = 'E' then readInteger? rest else none

def readFraction : List Char → List Char × List Char
  | '.' :: rest => rest.span Char.isDigit
  | text => ([], text)

def readDecimal? (text : List Char) : Option Decimal :=
  let (whole, rest) := text.span Char.isDigit
  let (fraction, rest) := readFraction rest
  if whole = [] ∧ fraction = [] then none
  else (readScale? rest).map fun scale =>
    ⟨digitsValue (digitsValue 0 whole) fraction, scale - fraction.length⟩

def read? (text : List Char) : Option Double :=
  let (negative, body) := readSign text
  match readDecimal? body with
  | some decimal => some (ofDecimal negative decimal)
  | none =>
    let word := String.ofList (body.map Char.toLower)
    if word = "inf" ∨ word = "infinity" then some (infinity negative)
    else if word = "nan" then some (nan negative)
    else none

end Double

end Leveret
