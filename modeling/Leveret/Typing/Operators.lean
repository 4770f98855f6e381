import Leveret.Tree.Operator
import Leveret.Value.Basic

/-!
# Types of operations

The type of an operation from the types of its operands. Numbers of different types do not mix.
-/

namespace Leveret

def UnaryOp.result? : UnaryOp → Ty → Option Ty
  | _, .int => some .int
  | _, .float => some .float
  | _, .bool => none

namespace BinaryOp

/-- The type of an operation on two numbers of the type `ty`. -/
def numericResult? (ty : Ty) : BinaryOp → Option Ty
  | add | subtract | multiply | divide => some ty
  | less | greater | lessEquals | greaterEquals | equals | notEquals => some .bool
  | and | or => none

def logicalResult? : BinaryOp → Option Ty
  | and | or | equals | notEquals => some .bool
  | _ => none

def result? (op : BinaryOp) (left right : Ty) : Option Ty :=
  match left, right with
  | .int, .int => numericResult? .int op
  | .float, .float => numericResult? .float op
  | .bool, .bool => logicalResult? op
  | _, _ => none

end BinaryOp

end Leveret
