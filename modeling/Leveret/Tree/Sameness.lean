import Leveret.Tree.Basic

/-!
# Sameness of trees

Two trees are the same if they are built alike from the same names, operators and constants. Node
numbers and spans do not count.
-/

namespace Leveret

mutual

def Expr.same : Expr → Expr → Bool
  | .literal _ a, .literal _ b => a.same b
  | .unary _ op a, .unary _ op' b => op == op' && a.same b
  | .binary _ op a c, .binary _ op' b d => op == op' && a.same b && c.same d
  | .load _ name, .load _ name' => name == name'
  | .compound _ a, .compound _ b => a.same b
  | _, _ => false

def Block.same : Block → Block → Bool
  | ⟨_, as⟩, ⟨_, bs⟩ => sameAll as bs

def Stmt.same : Stmt → Stmt → Bool
  | .declareVar _ name ty (some a), .declareVar _ name' ty' (some b) =>
    name == name' && ty == ty' && a.same b
  | .declareVar _ name ty none, .declareVar _ name' ty' none => name == name' && ty == ty'
  | .declareConst _ name ty a, .declareConst _ name' ty' b =>
    name == name' && ty == ty' && a.same b
  | .assign _ name a, .assign _ name' b => name == name' && a.same b
  | .print _ a, .print _ b => a.same b
  | .ifElse _ c a (some b), .ifElse _ c' a' (some b') => c.same c' && a.same a' && b.same b'
  | .ifElse _ c a none, .ifElse _ c' a' none => c.same c' && a.same a'
  | .whileLoop _ c a, .whileLoop _ c' a' => c.same c' && a.same a'
  | .breakLoop _, .breakLoop _ => true
  | .continueLoop _, .continueLoop _ => true
  | .expr _ a, .expr _ b => a.same b
  | _, _ => false

def sameAll : List Stmt → List Stmt → Bool
  | [], [] => true
  | a :: as, b :: bs => a.same b && sameAll as bs
  | _, _ => false

end

def Program.same (p q : Program) : Bool := sameAll p.statements q.statements

end Leveret
