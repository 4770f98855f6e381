import Leveret.Tree.Basic

/-!
# Printing programs

The canonical source of a tree. Parentheses stand only where the operands of an operator would
otherwise be grouped another way.
-/

namespace Leveret

def indent (depth : Nat) : String := String.ofList (List.replicate (4 * depth) ' ')

def Expr.precedence? : Expr → Option Nat
  | .binary _ op .. => some op.precedence
  | _ => none

def parenthesised (wrap : Bool) (text : String) : String :=
  if wrap then "(" ++ text ++ ")" else text

/-- Whether an operand is put in parentheses because it is a binary operation for which `loose`
holds. -/
def Expr.wraps (e : Expr) (loose : Nat → Bool) : Bool := e.precedence?.any loose

def typePart : Option Ty → String
  | none => ""
  | some ty => " " ++ ty.name

mutual

/-- The text of an expression inside a statement at `depth`. -/
def Expr.text (depth : Nat) : Expr → String
  | .literal _ value => value.text
  | .unary _ op operand =>
    op.symbol ++ parenthesised (operand.wraps fun _ => true) (operand.text depth)
  | .binary _ op left right =>
    parenthesised (left.wraps (· < op.precedence)) (left.text depth) ++ " " ++ op.symbol ++ " " ++
      parenthesised (right.wraps (· ≤ op.precedence)) (right.text depth)
  | .load _ name => name
  | .compound _ body => body.text depth

def Block.text (depth : Nat) : Block → String
  | ⟨_, statements⟩ => "\x7b\n" ++ textAll (depth + 1) statements ++ indent depth ++ "\x7d"

/-- The lines of a statement, indented and each with its newline. -/
def Stmt.text (depth : Nat) : Stmt → String
  | .declareVar _ name ty none => indent depth ++ "var " ++ name ++ typePart ty ++ ";\n"
  | .declareVar _ name ty (some init) =>
    indent depth ++ "var " ++ name ++ typePart ty ++ " = " ++ init.text depth ++ ";\n"
  | .declareConst _ name ty init =>
    indent depth ++ "const " ++ name ++ typePart ty ++ " = " ++ init.text depth ++ ";\n"
  | .assign _ name value => indent depth ++ name ++ " = " ++ value.text depth ++ ";\n"
  | .print _ value => indent depth ++ "print " ++ value.text depth ++ ";\n"
  | .ifElse _ condition consequence none =>
    indent depth ++ "if " ++ condition.text depth ++ " " ++ consequence.text depth ++ "\n"
  | .ifElse _ condition consequence (some alternative) =>
    indent depth ++ "if " ++ condition.text depth ++ " " ++ consequence.text depth ++ " else " ++
      alternative.text depth ++ "\n"
  | .whileLoop _ condition body =>
    indent depth ++ "while " ++ condition.text depth ++ " " ++ body.text depth ++ "\n"
  | .breakLoop _ => indent depth ++ "break;\n"
  | .continueLoop _ => indent depth ++ "continue;\n"
  | .expr _ value => indent depth ++ value.text depth ++ ";\n"

def textAll (depth : Nat) : List Stmt → String
  | [] => ""
  | s :: rest => s.text depth ++ textAll depth rest

end

def Program.text (p : Program) : String := textAll 0 p.statements

end Leveret
