import Leveret.Token.Basic

/-!
# Operators

The operators of the language, how they are spelled and how tightly they bind.
-/

namespace Leveret

inductive UnaryOp where
  | plus | minus
deriving DecidableEq, Inhabited

namespace UnaryOp

def all : List UnaryOp := [plus, minus]

def ofKind? : Kind → Option UnaryOp
  | .plus => some plus
  | .dash => some minus
  | _ => none

def symbol : UnaryOp → String
  | plus => "+"
  | minus => "-"

def ofSymbol? (symbol : String) : Option UnaryOp := all.find? (·.symbol = symbol)

end UnaryOp

inductive BinaryOp where
  | add | subtract | multiply | divide
  | less | greater | lessEquals | greaterEquals | equals | notEquals
  | and | or
deriving DecidableEq, Inhabited

namespace BinaryOp

def all : List BinaryOp :=
  [add, subtract, multiply, divide, less, greater, lessEquals, greaterEquals, equals, notEquals,
   and, or]

def ofKind? : Kind → Option BinaryOp
  | .plus => some add
  | .dash => some subtract
  | .star => some multiply
  | .slash => some divide
  | .less => some less
  | .greater => some greater
  | .lessEquals => some lessEquals
  | .greaterEquals => some greaterEquals
  | .equals => some equals
  | .notEquals => some notEquals
  | .and => some and
  | .or => some or
  | _ => none

def symbol : BinaryOp → String
  | add => "+"
  | subtract => "-"
  | multiply => "*"
  | divide => "/"
  | less => "<"
  | greater => ">"
  | lessEquals => "<="
  | greaterEquals => ">="
  | equals => "=="
  | notEquals => "!="
  | and => "&&"
  | or => "||"

def ofSymbol? (symbol : String) : Option BinaryOp := all.find? (·.symbol = symbol)

/-- The operator with the higher number takes its operands first. -/
def precedence : BinaryOp → Nat
  | or => 1
  | and => 2
  | equals | notEquals => 3
  | less | greater | lessEquals | greaterEquals => 4
  | add | subtract => 5
  | multiply | divide => 6

end BinaryOp

end Leveret
