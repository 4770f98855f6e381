import Leveret.Diagnostic.Basic
import Leveret.Scope
import Leveret.Tree.Basic
import Leveret.Value.Operation

/-!
# Running programs

The evaluator walks the tree of a program and collects the lines it prints. Every loop gets at
most `limit` passes, so a run always ends: in an answer, in a failure, or unfinished. A higher
limit only lets an unfinished run go on.
-/

namespace Leveret

inductive Halt where
  | failed (d : Diagnostic)
  /-- A loop was out of passes. -/
  | unfinished
deriving DecidableEq

/-- How a statement ends. -/
inductive Completion where
  | value (v : Option Value)
  | breaking
  | continuing
deriving DecidableEq

namespace Eval

structure State where
  scopes : Chain Value
  output : Array String

def State.initial : State := ⟨.initial, #[]⟩

end Eval

abbrev Eval := EStateM Halt Eval.State

namespace Eval

/-! ## Steps -/

def fail {α : Type} (position : Position) (cause : Cause) : Eval α :=
  throw (.failed ⟨cause, position⟩)

def internal {α : Type} (position : Position) (message : String) : Eval α :=
  fail position (.internalError message)

def lift {α : Type} (position : Position) : Except Cause α → Eval α
  | .ok a => return a
  | .error cause => fail position cause

def liftScope {α : Type} (position : Position) : Except ScopeError α → Eval α
  | .ok a => return a
  | .error e => internal position e.message

def inFrame {α : Type} (action : Eval α) : Eval α := do
  modify fun s => { s with scopes := s.scopes.push }
  try action
  finally modify fun s => { s with scopes := s.scopes.pop }

def require (position : Position) : Option Value → Eval Value
  | some v => return v
  | none => internal position "expression has no value"

def truth (position : Position) : Value → Eval Bool
  | .bool b => return b
  | v => internal position s!"condition evaluated to {v.ty.name}"

def load (position : Position) (name : String) : Eval Value := do
  liftScope position ((← get).scopes.resolve name)

def declare (position : Position) (name : String) (v : Value) : Eval Unit := do
  let scopes ← liftScope position ((← get).scopes.declare name v)
  modify fun s => { s with scopes }

def assign (position : Position) (name : String) (v : Value) : Eval Unit := do
  let scopes ← liftScope position ((← get).scopes.assign name v)
  modify fun s => { s with scopes }

def print (v : Value) : Eval Unit :=
  modify fun s => { s with output := s.output.push v.text }

/-- An expression takes the value of its block, but no jump out of it. -/
def blockValue (position : Position) : Completion → Eval (Option Value)
  | .value v => return v
  | _ => internal position "loop control escaped a compound expression"

def branchEnd : Completion → Completion
  | .value _ => .value none
  | jump => jump

/-- Runs `body` while `condition` holds, at most `limit` times. -/
def loop (condition : Eval Bool) (body : Eval Completion) : (limit : Nat) → Eval Unit
  | 0 => throw .unfinished
  | limit + 1 => do
    if ← condition then
      match ← body with
      | .breaking => return
      | _ => loop condition body limit

/-! ## The whole tree -/

mutual

/-- Only a block that does not end in an expression has no value. -/
def expr (limit : Nat) : Expr → Eval (Option Value)
  | .literal _ value => return some value
  | .unary node op operand => do
    let v ← require operand.position (← expr limit operand)
    lift node.span.start (some <$> Value.applyUnary op v)
  | .binary node op left right => do
    let a ← require left.position (← expr limit left)
    let b ← require right.position (← expr limit right)
    lift node.span.start (some <$> Value.applyBinary op a b)
  | .load node name => return some (← load node.span.start name)
  | .compound node body => do blockValue node.span.start (← block limit body)

def block (limit : Nat) : Block → Eval Completion
  | ⟨_, statements⟩ => inFrame (stmts limit none statements)

def stmt (limit : Nat) : Stmt → Eval Completion
  | .declareVar node _ none none => internal node.span.start "declaration without type"
  | .declareVar node name (some ty) none => do
    declare node.span.start name (.zero ty)
    return .value none
  | .declareVar node name _ (some init) => do
    declare node.span.start name (← require init.position (← expr limit init))
    return .value none
  | .declareConst node name _ init => do
    declare node.span.start name (← require init.position (← expr limit init))
    return .value none
  | .assign node name value => do
    assign node.span.start name (← require value.position (← expr limit value))
    return .value none
  | .print _ value => do
    print (← require value.position (← expr limit value))
    return .value none
  | .ifElse _ test consequence none => do
    let v ← require test.position (← expr limit test)
    if ← truth test.position v then return branchEnd (← block limit consequence)
    else return .value none
  | .ifElse _ test consequence (some alternative) => do
    let v ← require test.position (← expr limit test)
    if ← truth test.position v then return branchEnd (← block limit consequence)
    else return branchEnd (← block limit alternative)
  | .whileLoop _ test body => do
    let condition := do
      let v ← require test.position (← expr limit test)
      truth test.position v
    loop condition (block limit body) limit
    return .value none
  | .breakLoop _ => return .breaking
  | .continueLoop _ => return .continuing
  | .expr _ value => return .value (← expr limit value)

/-- Runs statements in order, up to a jump. The value is that of the last one, or `last` if there
are none. -/
def stmts (limit : Nat) (last : Option Value) : List Stmt → Eval Completion
  | [] => return .value last
  | s :: rest => do
    match ← stmt limit s with
    | .value v => stmts limit v rest
    | jump => return jump

end

def program (limit : Nat) : List Stmt → Eval Unit
  | [] => return
  | s :: rest => do
    match ← stmt limit s with
    | .value _ => program limit rest
    | _ => internal s.position "loop control outside of a loop"

end Eval

/-- A run: the lines printed, and why it stopped if it did not come to its end. -/
structure Run where
  output : List String
  halt : Option Halt
deriving DecidableEq

def Program.run (limit : Nat) (p : Program) : Run :=
  match (Eval.program limit p.statements).run .initial with
  | .ok _ s => ⟨s.output.toList, none⟩
  | .error halt s => ⟨s.output.toList, some halt⟩

end Leveret
