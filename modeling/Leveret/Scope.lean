/-!
# Scopes

A chain of frames in which names are looked up, from the innermost frame outwards. The checker
keeps declarations in it, the evaluator values and the code generator storage slots.
-/

namespace Leveret

/-- The names of one scope with what is recorded of them. -/
abbrev Frame (α : Type) := List (String × α)

namespace Frame

variable {α : Type}

def holds (f : Frame α) (name : String) : Bool := (f.lookup name).isSome

def update (f : Frame α) (name : String) (record : α) : Frame α :=
  f.map fun entry => if entry.1 = name then (entry.1, record) else entry

end Frame

inductive ScopeError where
  | duplicateDeclaration (name : String)
  | undefinedName (name : String)
deriving DecidableEq

namespace ScopeError

def message : ScopeError → String
  | duplicateDeclaration name => s!"{name} is already declared in this frame"
  | undefinedName name => s!"{name} is not declared"

end ScopeError

/-- Frames, the innermost first. -/
structure Chain (α : Type) where
  frames : List (Frame α)

namespace Chain

variable {α : Type}

def initial : Chain α := ⟨[[]]⟩

def depth (c : Chain α) : Nat := c.frames.length

def push (c : Chain α) : Chain α := ⟨[] :: c.frames⟩

def pop (c : Chain α) : Chain α := ⟨c.frames.tail⟩

def innermost? (c : Chain α) : Option (Frame α) := c.frames.head?

def find? (c : Chain α) (name : String) : Option α := c.frames.findSome? (·.lookup name)

def resolve (c : Chain α) (name : String) : Except ScopeError α :=
  match c.find? name with
  | some record => .ok record
  | none => .error (.undefinedName name)

/-- The frames with another record in the first one that holds the name. -/
def assignIn (name : String) (record : α) : List (Frame α) → List (Frame α)
  | [] => []
  | frame :: outer =>
    if frame.holds name then frame.update name record :: outer
    else frame :: assignIn name record outer

def declaredHere (c : Chain α) (name : String) : Bool :=
  c.innermost?.any (·.holds name)

end Chain

/-- What is done to a chain in place. When it fails, the chain stays as it has become by then. -/
abbrev Operation (α : Type) := EStateM ScopeError (Chain α)

namespace Operation

variable {α : Type}

/-- A name may be declared once in a frame. It hides the same name of outer frames. -/
def declare (name : String) (record : α) : Operation α Unit := do
  match (← get).frames with
  | [] => throw (.undefinedName name)
  | frame :: outer =>
    if frame.holds name then throw (.duplicateDeclaration name)
    set (⟨((name, record) :: frame) :: outer⟩ : Chain α)

def resolve (name : String) : Operation α α := do
  ofExcept ((← get).resolve name)

def assign (name : String) (record : α) : Operation α Unit := do
  discard (resolve name)
  modify fun c => ⟨Chain.assignIn name record c.frames⟩

/-- The chain that the operation makes of `c` if it succeeds. -/
def result (x : Operation α Unit) (c : Chain α) : Except ScopeError (Chain α) :=
  match x.run c with
  | .ok _ c' => .ok c'
  | .error e _ => .error e

end Operation

namespace Chain

variable {α : Type}

def declare (c : Chain α) (name : String) (record : α) : Except ScopeError (Chain α) :=
  (Operation.declare name record).result c

def assign (c : Chain α) (name : String) (record : α) : Except ScopeError (Chain α) :=
  (Operation.assign name record).result c

end Chain

end Leveret
