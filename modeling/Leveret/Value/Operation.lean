import Leveret.Diagnostic.Cause
import Leveret.Tree.Operator
import Leveret.Value.Basic

/-!
# Operations on values

What the operators compute. An operator that is not defined on its operands is an internal error:
programs in which that could happen are rejected before they run.
-/

namespace Leveret

namespace Value

def applyUnary : UnaryOp → Value → Except Cause Value
  | .plus, int a => .ok (int a)
  | .plus, float a => .ok (float a)
  | .minus, int a => .ok (int (-a))
  | .minus, float a => .ok (float a.neg)
  | op, bool _ => .error (.internalError s!"no unary {op.symbol} for {Ty.bool.name}")

def applyInt (op : BinaryOp) (a b : Int32) : Except Cause Value :=
  match op with
  | .add => .ok (int (a + b))
  | .subtract => .ok (int (a - b))
  | .multiply => .ok (int (a * b))
  | .divide => if b = 0 then .error .divisionByZero else .ok (int (a / b))
  | .less => .ok (bool (a < b))
  | .greater => .ok (bool (b < a))
  | .lessEquals => .ok (bool (a ≤ b))
  | .greaterEquals => .ok (bool (b ≤ a))
  | .equals => .ok (bool (a == b))
  | .notEquals => .ok (bool (a != b))
  | .and | .or => .error (.internalError s!"no binary {op.symbol} for {Ty.int.name}")

def applyFloat (op : BinaryOp) (a b : Double) : Except Cause Value :=
  match op with
  | .add => .ok (float (a.add b))
  | .subtract => .ok (float (a.sub b))
  | .multiply => .ok (float (a.mul b))
  | .divide => .ok (float (a.div b))
  | .less => .ok (bool (a.less b))
  | .greater => .ok (bool (b.less a))
  | .lessEquals => .ok (bool (a.atMost b))
  | .greaterEquals => .ok (bool (b.atMost a))
  | .equals => .ok (bool (a.equal b))
  | .notEquals => .ok (bool (!a.equal b))
  | .and | .or => .error (.internalError s!"no binary {op.symbol} for {Ty.float.name}")

def applyBool (op : BinaryOp) (a b : Bool) : Except Cause Value :=
  match op with
  | .and => .ok (bool (a && b))
  | .or => .ok (bool (a || b))
  | .equals => .ok (bool (a == b))
  | .notEquals => .ok (bool (a != b))
  | _ => .error (.internalError s!"no binary {op.symbol} for {Ty.bool.name}")

/-- Both operands are at hand, also for the logical operators. -/
def applyBinary (op : BinaryOp) : Value → Value → Except Cause Value
  | int a, int b => applyInt op a b
  | float a, float b => applyFloat op a b
  | bool a, bool b => applyBool op a b
  | a, b =>
    .error (.internalError s!"no binary {op.symbol} for {a.ty.name} and {b.ty.name}")

end Value

end Leveret
