import Leveret.Tree.Basic

/-!
# The typing judgement

Which programs are well typed, as one would say it of the language and not of a checker: the
names in scope, the operators that go with each type, and where a value is needed. There is no
order of work in it, no recovery from faults and no annotation.
-/

namespace Leveret

/-! ## Operators -/

inductive UnaryOp.Takes : UnaryOp → Ty → Ty → Prop
  | number {op ty} : ty ∈ [.int, .float] → Takes op ty ty

inductive BinaryOp.Takes : BinaryOp → Ty → Ty → Prop
  | arithmetic {op ty} : op ∈ [.add, .subtract, .multiply, .divide] → ty ∈ [.int, .float] →
      Takes op ty ty
  | order {op ty} : op ∈ [.less, .greater, .lessEquals, .greaterEquals] → ty ∈ [.int, .float] →
      Takes op ty .bool
  | equality {op ty} : op ∈ [.equals, .notEquals] → Takes op ty .bool
  | logic {op} : op ∈ [.and, .or] → Takes op .bool .bool

/-! ## Names in scope -/

/-- What a name stands for: a constant or a variable of some type. -/
structure Binding where
  isConst : Bool
  ty : Ty
deriving DecidableEq

abbrev Environment := List (List (String × Binding))

namespace Environment

/-- The innermost frame that has the name tells what it stands for. -/
inductive Sees : Environment → String → Binding → Prop
  | here {frame outer name b} : frame.lookup name = some b → Sees (frame :: outer) name b
  | outside {frame outer name b} : frame.lookup name = none → Sees outer name b →
      Sees (frame :: outer) name b

inductive Declares : Environment → String → Binding → Environment → Prop
  | intro {frame outer name b} : frame.lookup name = none →
      Declares (frame :: outer) name b (((name, b) :: frame) :: outer)

end Environment

/-! ## Trees -/

mutual

/-- An expression is well typed and has a value of a type, or none. -/
inductive Expr.Typed : Environment → Expr → Option Ty → Prop
  | int {env node n} : Expr.Typed env (.literal node (.int n)) (some .int)
  | float {env node x} : Expr.Typed env (.literal node (.float x)) (some .float)
  | bool {env node b} : Expr.Typed env (.literal node (.bool b)) (some .bool)
  | unary {env node op operand ty ty'} : Expr.Typed env operand (some ty) → op.Takes ty ty' →
      Expr.Typed env (.unary node op operand) (some ty')
  | binary {env node op left right ty ty'} : Expr.Typed env left (some ty) →
      Expr.Typed env right (some ty) → op.Takes ty ty' →
      Expr.Typed env (.binary node op left right) (some ty')
  | load {env node name b} : env.Sees name b → Expr.Typed env (.load node name) (some b.ty)
  /-- No jump leads out of it, so it is not in a loop. -/
  | compound {env node body r} : Block.Typed false env body r →
      Expr.Typed env (.compound node body) r

inductive Block.Typed : (inLoop : Bool) → Environment → Block → Option Ty → Prop
  | value {inLoop env span init node e env' r} : Statements.Typed inLoop ([] :: env) init env' →
      Expr.Typed env' e r → Block.Typed inLoop env ⟨span, init ++ [.expr node e]⟩ r
  | noValue {inLoop env span list env'} : Statements.Typed inLoop ([] :: env) list env' →
      (∀ node e, list.getLast? ≠ some (.expr node e)) → Block.Typed inLoop env ⟨span, list⟩ none

inductive Stmt.Typed : (inLoop : Bool) → Environment → Stmt → Environment → Prop
  | declareZero {inLoop env node name ty env'} : env.Declares name ⟨false, ty⟩ env' →
      Stmt.Typed inLoop env (.declareVar node name (some ty) none) env'
  | declareVar {inLoop env node name declared init ty env'} : Expr.Typed env init (some ty) →
      (∀ ty' ∈ declared, ty' = ty) → env.Declares name ⟨false, ty⟩ env' →
      Stmt.Typed inLoop env (.declareVar node name declared (some init)) env'
  | declareConst {inLoop env node name declared init ty env'} : Expr.Typed env init (some ty) →
      (∀ ty' ∈ declared, ty' = ty) → env.Declares name ⟨true, ty⟩ env' →
      Stmt.Typed inLoop env (.declareConst node name declared init) env'
  | assign {inLoop env node name value ty} : Expr.Typed env value (some ty) →
      env.Sees name ⟨false, ty⟩ → Stmt.Typed inLoop env (.assign node name value) env
  | print {inLoop env node value ty} : Expr.Typed env value (some ty) →
      Stmt.Typed inLoop env (.print node value) env
  | ifOnly {inLoop env node test consequence r} : Expr.Typed env test (some .bool) →
      Block.Typed inLoop env consequence r →
      Stmt.Typed inLoop env (.ifElse node test consequence none) env
  | ifElse {inLoop env node test consequence alternative r r'} :
      Expr.Typed env test (some .bool) → Block.Typed inLoop env consequence r →
      Block.Typed inLoop env alternative r' →
      Stmt.Typed inLoop env (.ifElse node test consequence (some alternative)) env
  | whileLoop {inLoop env node test body r} : Expr.Typed env test (some .bool) →
      Block.Typed true env body r → Stmt.Typed inLoop env (.whileLoop node test body) env
  | breakLoop {env node} : Stmt.Typed true env (.breakLoop node) env
  | continueLoop {env node} : Stmt.Typed true env (.continueLoop node) env
  | expr {inLoop env node e r} : Expr.Typed env e r → Stmt.Typed inLoop env (.expr node e) env

inductive Statements.Typed : (inLoop : Bool) → Environment → List Stmt → Environment → Prop
  | nil {inLoop env} : Statements.Typed inLoop env [] env
  | cons {inLoop env s env' rest env''} : Stmt.Typed inLoop env s env' →
      Statements.Typed inLoop env' rest env'' → Statements.Typed inLoop env (s :: rest) env''

end

/-- A program starts with one empty frame and outside of any loop. -/
def Program.Typed (p : Program) : Prop := ∃ env, Statements.Typed false [[]] p.statements env

end Leveret
