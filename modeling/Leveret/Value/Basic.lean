import Leveret.Double.Shortest

/-!
# Types and values

The three types of the language and their values. A literal of a program is a value, and so is a
constant of the code made from it.
-/

namespace Leveret

inductive Ty where
  | int | float | bool
deriving DecidableEq, Inhabited

namespace Ty

def all : List Ty := [int, float, bool]

def name : Ty → String
  | int => "int"
  | float => "float"
  | bool => "bool"

def ofName? (name : String) : Option Ty := all.find? (·.name = name)

end Ty

/-- Whole numbers have 32 bits and wrap around. -/
inductive Value where
  | int (value : Int32)
  | float (value : Double)
  | bool (value : Bool)
deriving DecidableEq, Inhabited

namespace Value

open Text

def ty : Value → Ty
  | int _ => .int
  | float _ => .float
  | bool _ => .bool

/-- What a variable holds that is given no other value. -/
def zero : Ty → Value
  | .int => int 0
  | .float => float .zero
  | .bool => bool false

/-- Equality as numbers: a NaN differs from itself, and the two zeros are equal. -/
def same : Value → Value → Bool
  | int a, int b => a == b
  | float a, float b => a.equal b
  | bool a, bool b => a == b
  | _, _ => false

/-- The value as it is printed and as it is spelled in a program. -/
def text : Value → String
  | int value => String.ofList (writeInteger value.toInt)
  | float value => String.ofList value.format
  | bool value => if value then "true" else "false"

end Value

def readInt32? (text : List Char) : Option Int32 :=
  match Text.readInteger? text with
  | some n => if -0x80000000 ≤ n ∧ n < 0x80000000 then some (Int32.ofInt n) else none
  | none => none

end Leveret
