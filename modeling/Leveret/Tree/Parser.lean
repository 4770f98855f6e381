import Leveret.Double.Reader
import Leveret.Tree.Basic
import Leveret.Tree.Cursor
import Leveret.Tree.Grammar

/-!
# Parsing

From tokens to a program. Each construct is a parser of its own, given the parsers of its parts;
the last section ties them together, with a budget of steps that `Cursor.budget` makes large
enough. Nodes are numbered as they are finished, children before parents.
-/

namespace Leveret

namespace Parser

variable {m : Type → Type} [Parsing m]

/-! ## Nodes -/

def freshNode (span : Span) : m Node := return ⟨← freshId, span⟩

/-- A new node from `start` to the end of the token read last. -/
def closeNode (start : Position) : m Node := do
  freshNode ⟨start, (← get).previousEnd⟩

/-! ## Expressions -/

def leaf (make : Node → Expr) : m Expr := do
  let token ← advance
  return make (← freshNode token.span)

def number (token : Token) (value : Option Value) : m Expr :=
  match value with
  | some value => leaf (.literal · value)
  | none => throw ⟨.numberParseError token.text, token.span.start⟩

def primary : m Expr := do
  let token := (← get).current
  match token.kind with
  | .integer => number token ((readInt32? token.text.toList).map .int)
  | .float => number token ((Double.read? token.text.toList).map .float)
  | .trueWord => leaf (.literal · (.bool true))
  | .falseWord => leaf (.literal · (.bool false))
  | .identifier => leaf (.load · token.text)
  | _ => unexpected

def notOperator {α : Type} (token : Token) : m α :=
  throw ⟨.unexpectedToken token.text, token.span.start⟩

def binary (expr : Power → m Expr) (left : Expr) (power : Power) : m Expr := do
  let token ← advance
  match BinaryOp.ofKind? token.kind with
  | none => notOperator token
  | some op =>
    let right ← expr power
    let node ← freshNode ⟨left.node.span.start, right.node.span.stop⟩
    return .binary node op left right

def signed (expr : Power → m Expr) : m Expr := do
  let token ← advance
  match UnaryOp.ofKind? token.kind with
  | none => notOperator token
  | some op =>
    let operand ← expr .unary
    let node ← freshNode ⟨token.span.start, operand.node.span.stop⟩
    return .unary node op operand

def grouping (expr : Power → m Expr) : m Expr := do
  let _ ← expect .openParen
  let inner ← expr .lowest
  let _ ← expect .closeParen
  return inner

/-- A block that stands for its value. -/
def compound (block : m Block) : m Expr := do
  let body ← block
  return .compound (← freshNode body.span) body

def operand (expr : Power → m Expr) (block : m Block) : m Expr := do
  match (← get).kind with
  | .integer | .float | .trueWord | .falseWord | .identifier => primary
  | .dash | .plus => signed expr
  | .openParen => grouping expr
  | .openCurly => compound block
  | kind =>
    if kind.isInfixOnly then failHere "expected an operand before the operator" else unexpected

/-! ## Statements -/

def typeName? : m (Option Ty) := do
  if (← get).kind = .typeName then
    let token ← advance
    match Ty.ofName? token.text with
    | some ty => return some ty
    | none =>
      throw ⟨.unexpectedTokenDetailed token.text "expected a type name", token.span.start⟩
  else return none

def initializer? (expr : m Expr) : m (Option Expr) := do
  if (← get).kind = .assignment then
    let _ ← advance
    return some (← expr)
  else return none

/-- `var NAME TYPE = EXPR;`, where the type or the initial value may be left out. -/
def varDeclaration (expr : m Expr) : m Stmt := do
  let first ← advance
  let name ← expectDetailed .identifier "expected identifier during variable declaration"
  let declared ← typeName?
  let init ← initializer? expr
  if declared.isNone && init.isNone then failHere "expected rhs or explicit type"
  let _ ← expect .semicolon
  return .declareVar (← closeNode first.span.start) name.text declared init

def constDeclaration (expr : m Expr) : m Stmt := do
  let first ← advance
  let name ← expectDetailed .identifier "expected identifier during constant declaration"
  let declared ← typeName?
  match ← initializer? expr with
  | none => failHere "expected rhs in constant definition"
  | some init =>
    let _ ← expect .semicolon
    return .declareConst (← closeNode first.span.start) name.text declared init

def assignment (expr : m Expr) : m Stmt := do
  let target ← expect .identifier
  let _ ← expect .assignment
  let value ← expr
  let _ ← expect .semicolon
  return .assign (← closeNode target.span.start) target.text value

def printing (expr : m Expr) : m Stmt := do
  let first ← advance
  let value ← expr
  let _ ← expect .semicolon
  return .print (← closeNode first.span.start) value

/-- What follows `else`: a block, or another `if`, which is read as a block of one statement. -/
def otherwise (block : m Block) (conditional : m Stmt) : m Block := do
  if (← get).kind = .ifWord then
    let nested ← conditional
    return ⟨nested.node.span, [nested]⟩
  else block

def ifElse (expr : m Expr) (block : m Block) (conditional : m Stmt) : m Stmt := do
  let first ← advance
  let condition ← expr
  let consequence ← block
  let alternative ←
    if (← get).kind = .elseWord then
      let _ ← advance
      pure (some (← otherwise block conditional))
    else pure none
  return .ifElse (← closeNode first.span.start) condition consequence alternative

def whileLoop (expr : m Expr) (block : m Block) : m Stmt := do
  let first ← advance
  let condition ← expr
  let body ← block
  return .whileLoop (← closeNode first.span.start) condition body

/-- `break;` or, with any other first token, `continue;`. -/
def loopControl : m Stmt := do
  let word ← advance
  let _ ← expect .semicolon
  let node ← closeNode word.span.start
  return if word.kind = .breakWord then .breakLoop node else .continueLoop node

def exprStatement (expr : m Expr) : m Stmt := do
  let start := (← get).position
  let value ← expr
  let _ ← expect .semicolon
  return .expr (← closeNode start) value

/-- A statement is known by its first token, an assignment by its first two. -/
def statement (expr : m Expr) (block : m Block) (conditional : m Stmt) : m Stmt := do
  let c ← get
  match c.kind with
  | .varWord => varDeclaration expr
  | .constWord => constDeclaration expr
  | .printWord => printing expr
  | .ifWord => conditional
  | .whileWord => whileLoop expr block
  | .breakWord | .continueWord => loopControl
  | .identifier => if c.nextKind = .assignment then assignment expr else exprStatement expr
  | _ => exprStatement expr

def braced (statements : m (List Stmt)) : m Block := do
  let first ← expect .openCurly
  let inside ← statements
  let _ ← expect .closeCurly
  return ⟨⟨first.span.start, (← get).previousEnd⟩, inside⟩

/-! ## The whole grammar -/

mutual

/-- An expression made by operators that bind tighter than `power`. -/
def expr : (fuel : Nat) → Power → m Expr
  | 0, _ => unexpected
  | fuel + 1, power => do
    let left ← operand (expr fuel) (block fuel)
    extend fuel power left

/-- Takes in the operators that bind tighter than `power`, one after the other. -/
def extend : (fuel : Nat) → Power → Expr → m Expr
  | 0, _, _ => unexpected
  | fuel + 1, power, left => do
    let kind := (← get).kind
    if power < kind.power then
      let more ← binary (expr fuel) left kind.power
      extend fuel power more
    else return left

def block : (fuel : Nat) → m Block
  | 0 => unexpected
  | fuel + 1 => braced (blockStatements fuel)

def blockStatements : (fuel : Nat) → m (List Stmt)
  | 0 => unexpected
  | fuel + 1 => do
    match (← get).kind with
    | .closeCurly => return []
    | .endOfFile => failHere "expected `\x7d` before end of file"
    | _ =>
      let s ← stmt fuel
      let rest ← blockStatements fuel
      return s :: rest

def conditional : (fuel : Nat) → m Stmt
  | 0 => unexpected
  | fuel + 1 => ifElse (expr fuel .lowest) (block fuel) (conditional fuel)

def stmt : (fuel : Nat) → m Stmt
  | 0 => unexpected
  | fuel + 1 => statement (expr fuel .lowest) (block fuel) (conditional fuel)

end

def statements : (fuel : Nat) → m (List Stmt)
  | 0 => unexpected
  | fuel + 1 => do
    let c ← get
    if c.atEnd then return []
    else
      let s ← stmt fuel
      let rest ← statements fuel
      return s :: rest

def program : m Program := do
  let c ← get
  let inside ← statements c.budget
  return ⟨inside, ⟨⟨0, c.file⟩, (← get).position⟩⟩

end Parser

namespace Program

/-- The program that a list of tokens spells, or the first fault. -/
def ofTokens (tokens : List Token) (file : String) : Except Diagnostic Program :=
  match Parser.program.run (.ofTokens tokens file) with
  | .ok p _ => .ok p
  | .error d _ => .error d

end Program

end Leveret
