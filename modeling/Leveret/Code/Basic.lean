import Leveret.Value.Basic

/-!
# Block code

A small code for an abstract machine: a function is a list of basic blocks, each a run of
instructions that ends in one jump or return. Variables live in slots and intermediate values in
registers, both known by number.
-/

namespace Leveret.Code

inductive Operand where
  | register (number : Nat)
  | constant (value : Value)
deriving DecidableEq, Inhabited

inductive Opcode where
  | add | sub | mul | sdiv | fadd | fsub | fmul | fdiv | and | or
deriving DecidableEq, Inhabited

/-- Whole numbers are compared with their sign. Of doubles only `ne` holds of a NaN. -/
inductive Predicate where
  | eq | ne | lt | gt | le | ge
deriving DecidableEq, Inhabited

inductive Instruction where
  | load (dest slot : Nat) (ty : Ty)
  | store (slot : Nat) (ty : Ty) (value : Operand)
  | binary (dest : Nat) (op : Opcode) (ty : Ty) (left right : Operand)
  | icmp (dest : Nat) (predicate : Predicate) (ty : Ty) (left right : Operand)
  | fcmp (dest : Nat) (predicate : Predicate) (left right : Operand)
  | neg (dest : Nat) (ty : Ty) (operand : Operand)
  | call (callee : String) (args : List (Ty × Operand))
deriving DecidableEq

/-- The end of a block. Targets are block numbers. -/
inductive Terminator where
  | br (target : Nat)
  | condBr (condition : Operand) (onTrue onFalse : Nat)
  | ret (value : Operand)
deriving DecidableEq

structure BasicBlock where
  label : String
  instructions : Array Instruction
  /-- Missing while the block is being filled. -/
  terminator : Option Terminator
deriving DecidableEq

structure Slot where
  name : String
  ty : Ty
deriving DecidableEq

/-- The run of a function starts in its first block. -/
structure Function where
  name : String
  returns : Ty
  slots : Array Slot
  blocks : Array BasicBlock
deriving DecidableEq

namespace Function

def firstBlock? (f : Function) : Option BasicBlock := f.blocks[0]?

def find? (f : Function) (label : String) : Option BasicBlock := f.blocks.find? (·.label = label)

end Function

structure Extern where
  name : String
  params : List Ty
deriving DecidableEq

structure Module where
  name : String
  externs : List Extern
  functions : List Function
deriving DecidableEq

namespace Module

def function? (m : Module) (name : String) : Option Function := m.functions.find? (·.name = name)

end Module

def printer : Ty → String
  | .int => "printInt"
  | .float => "printFloat"
  | .bool => "printBool"

def printers : List Extern := Ty.all.map fun ty => ⟨printer ty, [ty]⟩

end Leveret.Code
