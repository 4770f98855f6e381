import Leveret.Code.Basic

/-!
# Building block code

A function under construction: its blocks and slots so far, the block that instructions go to,
and the loops around the place. Numbers are handed out in order and never again.
-/

namespace Leveret.Code

/-- Where `continue` and `break` go in a loop. -/
structure LoopTargets where
  header : Nat
  exit : Nat
deriving DecidableEq

structure Builder where
  blocks : Array BasicBlock
  slots : Array Slot
  current : Nat
  loops : List LoopTargets
  nextRegister : Nat
deriving DecidableEq

namespace Builder

/-- Labels other than the first carry the number of their block, so they all differ. -/
def labelFor (name : String) (block : Nat) : String :=
  if block = 0 then name else name ++ "." ++ String.ofList (Text.writeNatural block)

def createBlock (b : Builder) (name : String) : Nat × Builder :=
  let number := b.blocks.size
  (number, { b with blocks := b.blocks.push ⟨labelFor name number, #[], none⟩ })

def goTo (b : Builder) (block : Nat) : Builder := { b with current := block }

/-- An empty function with its first block, which is being filled. -/
def initial : Builder := (createBlock ⟨#[], #[], 0, [], 0⟩ "entry").2

def isTerminated (b : Builder) : Bool :=
  (b.blocks[b.current]?.bind (·.terminator)).isSome

def emit (b : Builder) (instruction : Instruction) : Builder :=
  { b with blocks := b.blocks.modify b.current fun block =>
      { block with instructions := block.instructions.push instruction } }

/-- Ends the current block, unless it has ended already. -/
def terminate (b : Builder) (terminator : Terminator) : Builder :=
  { b with blocks := b.blocks.modify b.current fun block =>
      { block with terminator := block.terminator.or (some terminator) } }

def freshRegister (b : Builder) : Nat × Builder :=
  (b.nextRegister, { b with nextRegister := b.nextRegister + 1 })

/-- A new slot, also for a name that has one already. -/
def allocateSlot (b : Builder) (name : String) (ty : Ty) : Nat × Builder :=
  (b.slots.size, { b with slots := b.slots.push ⟨name, ty⟩ })

def slotType? (b : Builder) (slot : Nat) : Option Ty := b.slots[slot]?.map (·.ty)

def function (b : Builder) (name : String) (returns : Ty) : Function :=
  ⟨name, returns, b.slots, b.blocks⟩

end Builder

end Leveret.Code
