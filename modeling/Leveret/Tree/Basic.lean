import Leveret.Tree.Operator
import Leveret.Value.Basic

/-!
# Program trees

Expressions, blocks and statements. A block may stand for an expression; its value is then that
of its last statement.
-/

namespace Leveret

/-- What every node of a tree carries beside its meaning: a number that annotations are kept
under, and the stretch of source it was read from. -/
structure Node where
  id : Nat
  span : Span
deriving DecidableEq, Inhabited

mutual

inductive Expr where
  | literal (node : Node) (value : Value)
  | unary (node : Node) (op : UnaryOp) (operand : Expr)
  | binary (node : Node) (op : BinaryOp) (left right : Expr)
  | load (node : Node) (name : String)
  | compound (node : Node) (body : Block)

structure Block where
  span : Span
  statements : List Stmt

inductive Stmt where
  | declareVar (node : Node) (name : String) (declared : Option Ty) (init : Option Expr)
  | declareConst (node : Node) (name : String) (declared : Option Ty) (init : Expr)
  | assign (node : Node) (name : String) (value : Expr)
  | print (node : Node) (value : Expr)
  | ifElse (node : Node) (condition : Expr) (consequence : Block) (alternative : Option Block)
  | whileLoop (node : Node) (condition : Expr) (body : Block)
  | breakLoop (node : Node)
  | continueLoop (node : Node)
  | expr (node : Node) (value : Expr)

end

structure Program where
  statements : List Stmt
  span : Span

namespace Expr

def node : Expr → Node
  | literal node .. | unary node .. | binary node .. | load node _ | compound node _ => node

def id (e : Expr) : Nat := e.node.id

def position (e : Expr) : Position := e.node.span.start

end Expr

namespace Stmt

def node : Stmt → Node
  | declareVar node .. | declareConst node .. | assign node .. | print node _ | ifElse node ..
  | whileLoop node .. | breakLoop node | continueLoop node | expr node _ => node

def id (s : Stmt) : Nat := s.node.id

def position (s : Stmt) : Position := s.node.span.start

end Stmt

def Block.tail? (b : Block) : Option Expr :=
  match b.statements.getLast? with
  | some (.expr _ value) => some value
  | _ => none

end Leveret
