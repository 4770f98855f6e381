import Leveret.Code.Builder
import Leveret.Scope
import Leveret.Typing.Checker

/-!
# Lowering

From a checked program to block code. Declared names get slots, operations get registers, and
`if` and `while` get blocks of their own. Lowering fails only on a tree that the checker would
have rejected.
-/

namespace Leveret.Code

namespace Lowering

structure State where
  builder : Builder
  scopes : Chain Nat

def State.initial : State := ⟨.initial, .initial⟩

end Lowering

/-- One change to the code so far or to the names in scope. -/
inductive Edit where
  | createBlock (name : String)
  | goTo (block : Nat)
  | emit (instruction : Instruction)
  | terminate (terminator : Terminator)
  | freshRegister
  | allocateSlot (name : String) (ty : Ty)
  | enterLoop (targets : LoopTargets)
  | leaveLoop
  | pushFrame
  | popFrame
  | declare (name : String) (slot : Nat)
deriving DecidableEq

def Edit.apply (s : Lowering.State) : Edit → Lowering.State
  | createBlock name => { s with builder := (s.builder.createBlock name).2 }
  | goTo block => { s with builder := s.builder.goTo block }
  | emit i => { s with builder := s.builder.emit i }
  | terminate t => { s with builder := s.builder.terminate t }
  | freshRegister => { s with builder := s.builder.freshRegister.2 }
  | allocateSlot name ty => { s with builder := (s.builder.allocateSlot name ty).2 }
  | enterLoop targets =>
    { s with builder := { s.builder with loops := targets :: s.builder.loops } }
  | leaveLoop => { s with builder := { s.builder with loops := s.builder.loops.tail } }
  | pushFrame => { s with scopes := s.scopes.push }
  | popFrame => { s with scopes := s.scopes.pop }
  | declare name slot =>
    match s.scopes.declare name slot with
    | .ok scopes => { s with scopes }
    | .error _ => s

theorem Edit.apply_declare {s : Lowering.State} {name : String} {slot : Nat} {scopes : Chain Nat}
    (h : s.scopes.declare name slot = .ok scopes) :
    (declare name slot).apply s = { s with scopes } := by
  dsimp only [apply]
  rw [h]

/-- What lowering is written over: something that keeps the code so far and the names in scope,
changes them by edits and by nothing else, and stops at the first fault. -/
class Editing (m : Type → Type) extends Monad m, MonadExceptOf Diagnostic m where
  look {α : Type} : (Lowering.State → α) → m α
  edit : Edit → m Unit
  /-- One more edit in the end, whether the step succeeds or fails. -/
  ending {α : Type} : m α → Edit → m α

abbrev Lowering := EStateM Diagnostic Lowering.State

@[default_instance]
instance : Editing Lowering where
  look f := return f (← get)
  edit e := modify (Edit.apply · e)
  ending action e := try action finally modify (Edit.apply · e)

namespace Lowering

export Editing (look edit ending)

variable {m : Type → Type} [Editing m] {α : Type}

/-! ## Steps -/

def fail (position : Position) (message : String) : m α :=
  throw ⟨.codegenError message, position⟩

def liftScope (position : Position) : Except ScopeError α → m α
  | .ok a => return a
  | .error e => fail position e.message

def createBlock (name : String) : m Nat := do
  let number ← look (·.builder.blocks.size)
  edit (.createBlock name)
  return number

def freshRegister : m Nat := do
  let number ← look (·.builder.nextRegister)
  edit .freshRegister
  return number

def allocateSlot (name : String) (ty : Ty) : m Nat := do
  let number ← look (·.builder.slots.size)
  edit (.allocateSlot name ty)
  return number

def inFrame (action : m α) : m α := do
  edit .pushFrame
  ending action .popFrame

def inLoop (targets : LoopTargets) (action : m α) : m α := do
  edit (.enterLoop targets)
  ending action .leaveLoop

def typeOf (types : Annotations) (id : Nat) (position : Position) : m Ty :=
  match types[id]? with
  | some ty => return ty
  | none => fail position "node has no type annotation"

def require (position : Position) : Option Operand → m Operand
  | some operand => return operand
  | none => fail position "expression has no value"

def resolve (position : Position) (name : String) : m (Nat × Ty) := do
  let slot ← liftScope position (← look (·.scopes.resolve name))
  return (slot, ← look fun s => (s.builder.slotType? slot).getD default)

/-! ## Expressions -/

def comparison (predicate : Predicate) (ty : Ty) (dest : Nat) (left right : Operand) :
    Instruction :=
  match ty with
  | .float => .fcmp dest predicate left right
  | _ => .icmp dest predicate ty left right

/-- The instruction for an operator on operands of type `ty`. -/
def binaryInstruction? (op : BinaryOp) (ty : Ty) (dest : Nat) (left right : Operand) :
    Option Instruction :=
  let arithmetic (opcode : Opcode) := some (Instruction.binary dest opcode ty left right)
  let compare (predicate : Predicate) := some (comparison predicate ty dest left right)
  match ty, op with
  | .int, .add => arithmetic .add
  | .int, .subtract => arithmetic .sub
  | .int, .multiply => arithmetic .mul
  | .int, .divide => arithmetic .sdiv
  | .float, .add => arithmetic .fadd
  | .float, .subtract => arithmetic .fsub
  | .float, .multiply => arithmetic .fmul
  | .float, .divide => arithmetic .fdiv
  | .bool, .and => arithmetic .and
  | .bool, .or => arithmetic .or
  | _, .equals => compare .eq
  | _, .notEquals => compare .ne
  | .int, .less | .float, .less => compare .lt
  | .int, .greater | .float, .greater => compare .gt
  | .int, .lessEquals | .float, .lessEquals => compare .le
  | .int, .greaterEquals | .float, .greaterEquals => compare .ge
  | _, _ => none

def unary (op : UnaryOp) (ty : Ty) (operand : Operand) : m Operand :=
  match op with
  | .plus => return operand
  | .minus => do
    let dest ← freshRegister
    edit (.emit (.neg dest ty operand))
    return .register dest

def binary (position : Position) (op : BinaryOp) (ty : Ty) (left right : Operand) :
    m Operand := do
  let dest ← freshRegister
  match binaryInstruction? op ty dest left right with
  | none => fail position s!"no lowering for {op.symbol} on {ty.name}"
  | some instruction =>
    edit (.emit instruction)
    return .register dest

def load (position : Position) (name : String) : m Operand := do
  let (slot, ty) ← resolve position name
  let dest ← freshRegister
  edit (.emit (.load dest slot ty))
  return .register dest

/-! ## Statements -/

/-- A declared name gets a new slot, which its initial value is stored in. -/
def declare (position : Position) (name : String) (ty : Ty) (value : Operand) : m Unit := do
  let slot ← allocateSlot name ty
  edit (.emit (.store slot ty value))
  let _ ← liftScope position (← look (·.scopes.declare name slot))
  edit (.declare name slot)

def assign (position : Position) (name : String) (value : Operand) : m Unit := do
  let (slot, ty) ← resolve position name
  edit (.emit (.store slot ty value))

def fill (block next : Nat) (action : m α) : m Unit := do
  edit (.goTo block)
  let _ ← action
  edit (.terminate (.br next))

def ifElse (condition : Operand) (consequence alternative : m Unit) : m Unit := do
  let onTrue ← createBlock "then"
  let onFalse ← createBlock "else"
  let merge ← createBlock "merge"
  edit (.terminate (.condBr condition onTrue onFalse))
  fill onTrue merge consequence
  fill onFalse merge alternative
  edit (.goTo merge)

def whileLoop (condition : m Operand) (body : m Unit) : m Unit := do
  let header ← createBlock "header"
  let inside ← createBlock "body"
  let exit ← createBlock "exit"
  edit (.terminate (.br header))
  edit (.goTo header)
  let test ← condition
  edit (.terminate (.condBr test inside exit))
  fill inside header (inLoop ⟨header, exit⟩ body)
  edit (.goTo exit)

/-- Ends the block in a jump. What follows can never run and gets a block of its own. -/
def jump (position : Position) (target : LoopTargets → Nat) : m Unit := do
  match ← look (·.builder.loops) with
  | [] => fail position "loop control outside of a loop"
  | targets :: _ =>
    edit (.terminate (.br (target targets)))
    let dead ← createBlock "unreachable"
    edit (.goTo dead)

/-! ## The whole tree -/

mutual

/-- Only a block that does not end in an expression has no operand. -/
def expr (types : Annotations) : Expr → m (Option Operand)
  | .literal _ value => return some (.constant value)
  | .unary node op operand => do
    let ty ← typeOf types node.id node.span.start
    let value ← require operand.position (← expr types operand)
    return some (← unary op ty value)
  | .binary node op left right => do
    let ty ← typeOf types left.id left.position
    let a ← require left.position (← expr types left)
    let b ← require right.position (← expr types right)
    return some (← binary node.span.start op ty a b)
  | .load node name => return some (← load node.span.start name)
  | .compound _ body => block types body

def block (types : Annotations) : Block → m (Option Operand)
  | ⟨_, statements⟩ => inFrame (stmts types none statements)

def stmt (types : Annotations) : Stmt → m (Option Operand)
  | .declareVar node name _ none => do
    let ty ← typeOf types node.id node.span.start
    declare node.span.start name ty (.constant (.zero ty))
    return none
  | .declareVar node name _ (some init) => do
    let ty ← typeOf types node.id node.span.start
    declare node.span.start name ty (← require init.position (← expr types init))
    return none
  | .declareConst node name _ init => do
    let ty ← typeOf types node.id node.span.start
    declare node.span.start name ty (← require init.position (← expr types init))
    return none
  | .assign node name value => do
    assign node.span.start name (← require value.position (← expr types value))
    return none
  | .print _ value => do
    let ty ← typeOf types value.id value.position
    let operand ← require value.position (← expr types value)
    edit (.emit (.call (printer ty) [(ty, operand)]))
    return none
  | .ifElse _ test consequence none => do
    let condition ← require test.position (← expr types test)
    ifElse condition (discard (block types consequence)) (pure ())
    return none
  | .ifElse _ test consequence (some alternative) => do
    let condition ← require test.position (← expr types test)
    ifElse condition (discard (block types consequence)) (discard (block types alternative))
    return none
  | .whileLoop _ test body => do
    let condition := do require test.position (← expr types test)
    whileLoop condition (discard (block types body))
    return none
  | .breakLoop node => do
    jump node.span.start (·.exit)
    return none
  | .continueLoop node => do
    jump node.span.start (·.header)
    return none
  | .expr _ value => expr types value

/-- Lowers statements in order. The operand is that of the last one, or `last` if there are
none. -/
def stmts (types : Annotations) (last : Option Operand) : List Stmt → m (Option Operand)
  | [] => return last
  | s :: rest => do stmts types (← stmt types s) rest

end

def program (types : Annotations) (statements : List Stmt) : m Unit := do
  let _ ← stmts types none statements
  edit (.terminate (.ret (.constant (.int 0))))

end Lowering

def entryName : String := "main"

end Leveret.Code

namespace Leveret

def CheckedProgram.lower (p : CheckedProgram) (name : String) : Except Diagnostic Code.Module :=
  match (Code.Lowering.program p.annotations p.program.statements).run .initial with
  | .ok _ s => .ok ⟨name, Code.printers, [s.builder.function Code.entryName .int]⟩
  | .error d _ => .error d

end Leveret
