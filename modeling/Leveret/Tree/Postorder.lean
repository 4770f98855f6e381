import Leveret.Tree.Basic

/-!
# The nodes of a tree in order

All statements and expressions, children before parents: operands or condition first, then the
blocks, then the node itself.
-/

namespace Leveret

inductive Part where
  | expr (e : Expr)
  | stmt (s : Stmt)

def Part.node : Part → Node
  | expr e => e.node
  | stmt s => s.node

mutual

def Expr.parts : Expr → List Part
  | e@(.literal ..) | e@(.load ..) => [.expr e]
  | e@(.unary _ _ operand) => operand.parts ++ [.expr e]
  | e@(.binary _ _ left right) => left.parts ++ right.parts ++ [.expr e]
  | e@(.compound _ body) => body.parts ++ [.expr e]

def Block.parts : Block → List Part
  | ⟨_, statements⟩ => partsAll statements

def Stmt.parts : Stmt → List Part
  | s@(.declareVar _ _ _ none) | s@(.breakLoop _) | s@(.continueLoop _) => [.stmt s]
  | s@(.declareVar _ _ _ (some init)) => init.parts ++ [.stmt s]
  | s@(.declareConst _ _ _ init) => init.parts ++ [.stmt s]
  | s@(.assign _ _ value) => value.parts ++ [.stmt s]
  | s@(.print _ value) => value.parts ++ [.stmt s]
  | s@(.ifElse _ condition consequence none) =>
    condition.parts ++ consequence.parts ++ [.stmt s]
  | s@(.ifElse _ condition consequence (some alternative)) =>
    condition.parts ++ consequence.parts ++ alternative.parts ++ [.stmt s]
  | s@(.whileLoop _ condition body) => condition.parts ++ body.parts ++ [.stmt s]
  | s@(.expr _ value) => value.parts ++ [.stmt s]

def partsAll : List Stmt → List Part
  | [] => []
  | s :: rest => s.parts ++ partsAll rest

end

def Program.parts (p : Program) : List Part := partsAll p.statements

end Leveret
