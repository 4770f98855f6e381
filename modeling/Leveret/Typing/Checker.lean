import Std.Data.TreeMap
import Leveret.Diagnostic.Basic
import Leveret.Scope
import Leveret.Tree.Basic
import Leveret.Typing.Operators

/-!
# Type checking

The checker goes through a whole program and notes the type of every expression that has a value
and of every declared name, under the number of the node. It goes on after a fault: an expression
in which one was found is poisoned, and what depends on it is not reported again.
-/

namespace Leveret

abbrev Annotations := Std.TreeMap Nat Ty

/-- What is known of a declared name. There is no type if its initial value has none. -/
structure Declaration where
  isConst : Bool
  ty : Option Ty
deriving DecidableEq

/-- What is known of an expression. -/
inductive Synthesis where
  | typed (ty : Ty)
  | noValue
  /-- A fault inside has been reported. -/
  | poisoned
deriving DecidableEq

namespace Checker

structure State where
  annotations : Annotations
  errors : List Diagnostic
  /-- The number of loops that a `break` here could leave. -/
  loopDepth : Nat
  scopes : Chain Declaration

def State.initial : State := ⟨∅, [], 0, .initial⟩

end Checker

abbrev Checker := StateM Checker.State

namespace Checker

/-! ## Steps -/

def report (cause : Cause) (position : Position) : Checker Unit :=
  modify fun s => { s with errors := s.errors ++ [⟨cause, position⟩] }

def annotate (id : Nat) (ty : Ty) : Checker Unit :=
  modify fun s => { s with annotations := s.annotations.insert id ty }

def conclude (node : Node) (synthesis : Synthesis) : Checker Synthesis := do
  if let .typed ty := synthesis then annotate node.id ty
  return synthesis

def inFrame {α : Type} (action : Checker α) : Checker α := do
  modify fun s => { s with scopes := s.scopes.push }
  let result ← action
  modify fun s => { s with scopes := s.scopes.pop }
  return result

def inLoop {α : Type} (action : Checker α) : Checker α := do
  modify fun s => { s with loopDepth := s.loopDepth + 1 }
  let result ← action
  modify fun s => { s with loopDepth := s.loopDepth - 1 }
  return result

/-- Runs a step at another loop depth and goes back to the depth before. -/
def atLoopDepth {α : Type} (change : Nat → Nat) (action : Checker α) : Checker α := do
  let depth := (← get).loopDepth
  modify fun s => { s with loopDepth := change depth }
  let result ← action
  modify fun s => { s with loopDepth := depth }
  return result

def require (position : Position) : Synthesis → Checker (Option Ty)
  | .typed ty => return some ty
  | .poisoned => return none
  | .noValue => do
    report .missingValue position
    return none

def unary (node : Node) (op : UnaryOp) (operand : Option Ty) : Checker Synthesis :=
  match operand with
  | none => return .poisoned
  | some operand =>
    match op.result? operand with
    | some ty => conclude node (.typed ty)
    | none => do
      report (.unaryOpMismatch op.symbol operand.name) node.span.start
      return .poisoned

def binary (node : Node) (op : BinaryOp) (left right : Option Ty) : Checker Synthesis :=
  match left, right with
  | some left, some right =>
    match op.result? left right with
    | some ty => conclude node (.typed ty)
    | none => do
      report (.binOpMismatch left.name op.symbol right.name) node.span.start
      return .poisoned
  | _, _ => return .poisoned

def load (node : Node) (name : String) : Checker Synthesis := do
  match (← get).scopes.find? name with
  | some ⟨_, some ty⟩ => conclude node (.typed ty)
  | some ⟨_, none⟩ => return .poisoned
  | none =>
    report (.undefinedName name) node.span.start
    return .poisoned

/-- The type of a declared name from its stated type and that of its initial value. -/
def initialType (declared : Option Ty) (position : Position) (received : Option Ty) :
    Checker (Option Ty) := do
  match declared, received with
  | some expected, some received =>
    if expected ≠ received then report (.initMismatch expected.name received.name) position
    return some expected
  | some expected, none => return some expected
  | none, received => return received

def declare (node : Node) (name : String) (isConst : Bool) (ty : Option Ty) : Checker Unit := do
  if let some ty := ty then annotate node.id ty
  let s ← get
  match s.scopes.declare name ⟨isConst, ty⟩ with
  | .ok scopes => set { s with scopes }
  | .error (.duplicateDeclaration name) => report (.duplicateDeclaration name) node.span.start
  | .error (.undefinedName _) => return

def assign (node : Node) (name : String) (position : Position) (received : Option Ty) :
    Checker Unit := do
  match (← get).scopes.find? name with
  | none => report (.undefinedName name) node.span.start
  | some ⟨true, _⟩ => report (.assignToConst name) node.span.start
  | some ⟨false, expected⟩ =>
    if let (some expected, some received) := (expected, received) then
      if expected ≠ received then
        report (.assignTypeMismatch name expected.name received.name) position

def condition (construct : String) (position : Position) (received : Option Ty) :
    Checker Unit := do
  if let some received := received then
    if received ≠ .bool then report (.conditionMismatch construct received.name) position

def loopControl (node : Node) (keyword : String) : Checker Unit := do
  if (← get).loopDepth = 0 then report (.loopControlOutsideLoop keyword) node.span.start

/-! ## The whole tree -/

mutual

def expr : Expr → Checker Synthesis
  | .literal node value => conclude node (.typed value.ty)
  | .unary node op operand => do
    let ty ← require operand.position (← expr operand)
    unary node op ty
  | .binary node op left right => do
    let leftTy ← require left.position (← expr left)
    let rightTy ← require right.position (← expr right)
    binary node op leftTy rightTy
  | .load node name => load node name
  | .compound node body => do
    -- A jump cannot leave an expression.
    conclude node (← atLoopDepth (fun _ => 0) (block body))

def block : Block → Checker Synthesis
  | ⟨_, statements⟩ => inFrame (stmts .noValue statements)

/-- Checks a statement. Only one that is an expression can have a value. -/
def stmt : Stmt → Checker Synthesis
  | .declareVar node name declared none => do
    declare node name false declared
    return .noValue
  | .declareVar node name declared (some init) => do
    let received ← require init.position (← expr init)
    declare node name false (← initialType declared init.position received)
    return .noValue
  | .declareConst node name declared init => do
    let received ← require init.position (← expr init)
    declare node name true (← initialType declared init.position received)
    return .noValue
  | .assign node name value => do
    let received ← require value.position (← expr value)
    assign node name value.position received
    return .noValue
  | .print _ value => do
    let _ ← require value.position (← expr value)
    return .noValue
  | .ifElse _ test consequence none => do
    condition "if" test.position (← require test.position (← expr test))
    let _ ← block consequence
    return .noValue
  | .ifElse _ test consequence (some alternative) => do
    condition "if" test.position (← require test.position (← expr test))
    let _ ← block consequence
    let _ ← block alternative
    return .noValue
  | .whileLoop _ test body => do
    condition "while" test.position (← require test.position (← expr test))
    let _ ← inLoop (block body)
    return .noValue
  | .breakLoop node => do
    loopControl node "break"
    return .noValue
  | .continueLoop node => do
    loopControl node "continue"
    return .noValue
  | .expr _ value => expr value

def stmts (last : Synthesis) : List Stmt → Checker Synthesis
  | [] => return last
  | s :: rest => do stmts (← stmt s) rest

end

end Checker

/-- What checking a program finds. -/
structure CheckResult where
  annotations : Annotations
  errors : List Diagnostic

namespace CheckResult

def isClean (r : CheckResult) : Bool := r.errors.isEmpty

end CheckResult

def Program.check (p : Program) : CheckResult :=
  let (_, s) := (Checker.stmts .noValue p.statements).run .initial
  ⟨s.annotations, s.errors⟩

/-- A program with the types of its nodes, ready to be run or to be made into code. -/
structure CheckedProgram where
  program : Program
  annotations : Annotations

/-- The program with the annotations found, unless there were faults. -/
def CheckResult.accept (r : CheckResult) (p : Program) :
    Except (List Diagnostic) CheckedProgram :=
  if r.isClean then .ok ⟨p, r.annotations⟩ else .error r.errors

end Leveret
