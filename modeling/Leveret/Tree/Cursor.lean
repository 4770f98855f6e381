import Leveret.Diagnostic.Basic
import Leveret.Token.Basic

/-!
# The cursor

A place in a list of tokens, which the parser moves forward, and the count of nodes handed out so
far. The list always ends in an end-of-file token, and the cursor never passes it.
-/

namespace Leveret

structure Cursor where
  file : String
  /-- The tokens still to be read, without the one that ends the list. -/
  pending : List Token
  final : Token
  previousEnd : Position
  nextId : Nat
deriving DecidableEq

namespace Cursor

/-- At the start of a list of tokens. If it does not end in an end-of-file token, one is added. -/
def ofTokens (tokens : List Token) (file : String) : Cursor :=
  let start : Position := ⟨0, file⟩
  match tokens.getLast? with
  | none => ⟨file, [], .endOfFile start, start, 0⟩
  | some last =>
    if last.kind = .endOfFile then ⟨file, tokens.dropLast, last, start, 0⟩
    else ⟨file, tokens, .endOfFile last.span.stop, start, 0⟩

def current (c : Cursor) : Token := c.pending.headD c.final

def kind (c : Cursor) : Kind := c.current.kind

def nextKind (c : Cursor) : Kind := (c.pending.tail.headD c.final).kind

def position (c : Cursor) : Position := c.current.span.start

def atEnd (c : Cursor) : Bool := c.kind = .endOfFile

/-- Steps over the current token, but not over the last one. -/
def advance (c : Cursor) : Cursor :=
  match c.pending with
  | [] => c
  | token :: rest => { c with pending := rest, previousEnd := token.span.stop }

/-- Enough steps for any parse from here: a token is the start of at most so many constructs. -/
def budget (c : Cursor) : Nat := 8 * (c.pending.length + 1)

end Cursor

/-! ## Steps of a parser -/

/-- What parsers are written over: something that keeps a cursor and stops at the first fault. -/
class Parsing (m : Type → Type) extends Monad m, MonadStateOf Cursor m, MonadExceptOf Diagnostic m

/-- A parser moves the cursor. One that fails leaves it where it found the fault. -/
abbrev Parser := EStateM Diagnostic Cursor

@[default_instance]
instance : Parsing Parser where

namespace Parser

variable {m : Type → Type} [Parsing m] {α : Type}

/-- The current token, which is stepped over. -/
def advance : m Token :=
  modifyGet fun c => (c.current, c.advance)

def unexpected : m α := do
  let c ← get
  throw ⟨.unexpectedToken c.current.text, c.position⟩

/-- The fault of the current token, in words of its own. -/
def fault (c : Cursor) (message : String) : Diagnostic :=
  ⟨.unexpectedTokenDetailed c.current.text message, c.position⟩

def failHere (message : String) : m α := do
  throw (fault (← get) message)

def expect (kind : Kind) : m Token := do
  if (← get).kind = kind then advance else unexpected

def expectDetailed (kind : Kind) (message : String) : m Token := do
  if (← get).kind = kind then advance else failHere message

def freshId : m Nat :=
  modifyGet fun c => (c.nextId, { c with nextId := c.nextId + 1 })

end Parser

end Leveret
