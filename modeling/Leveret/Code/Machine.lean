import Std.Data.TreeMap
import Leveret.Code.Basic

/-!
# The machine

What block code does when it is run, one instruction at a time. The machine starts in the first
block with nothing in its registers and slots. It stops when the function returns, when a whole
number is divided by zero, or when it is stuck because the code is not in order.
-/

namespace Leveret.Code

inductive Stop where
  | returned (value : Value)
  | divisionByZero
  | stuck
deriving DecidableEq

/-! ## Operations -/

/-- Whole numbers wrap around, and their division goes toward zero. -/
def Opcode.apply : Opcode → Value → Value → Except Stop Value
  | add, .int a, .int b => .ok (.int (a + b))
  | sub, .int a, .int b => .ok (.int (a - b))
  | mul, .int a, .int b => .ok (.int (a * b))
  | sdiv, .int a, .int b => if b = 0 then .error .divisionByZero else .ok (.int (a / b))
  | fadd, .float a, .float b => .ok (.float (a.add b))
  | fsub, .float a, .float b => .ok (.float (a.sub b))
  | fmul, .float a, .float b => .ok (.float (a.mul b))
  | fdiv, .float a, .float b => .ok (.float (a.div b))
  | and, .bool a, .bool b => .ok (.bool (a && b))
  | or, .bool a, .bool b => .ok (.bool (a || b))
  | _, _, _ => .error .stuck

namespace Predicate

def holdsInt : Predicate → Int32 → Int32 → Bool
  | eq, a, b => a == b
  | ne, a, b => a != b
  | lt, a, b => a < b
  | gt, a, b => b < a
  | le, a, b => a ≤ b
  | ge, a, b => b ≤ a

def holdsFloat : Predicate → Double → Double → Bool
  | eq, a, b => a.equal b
  | ne, a, b => !a.equal b
  | lt, a, b => a.less b
  | gt, a, b => b.less a
  | le, a, b => a.atMost b
  | ge, a, b => b.atMost a

def applyInt : Predicate → Value → Value → Except Stop Value
  | p, .int a, .int b => .ok (.bool (p.holdsInt a b))
  | eq, .bool a, .bool b => .ok (.bool (a == b))
  | ne, .bool a, .bool b => .ok (.bool (a != b))
  | _, _, _ => .error .stuck

def applyFloat : Predicate → Value → Value → Except Stop Value
  | p, .float a, .float b => .ok (.bool (p.holdsFloat a b))
  | _, _, _ => .error .stuck

end Predicate

def negate : Value → Except Stop Value
  | .int a => .ok (.int (-a))
  | .float a => .ok (.float a.neg)
  | .bool _ => .error .stuck

/-! ## Steps -/

/-- A machine in the middle of a run. `index` counts the instructions of the block that are
done. -/
structure Machine where
  block : Nat
  index : Nat
  registers : Std.TreeMap Nat Value
  slots : Std.TreeMap Nat Value
  output : Array String

namespace Machine

def initial : Machine := ⟨0, 0, ∅, ∅, #[]⟩

def value (m : Machine) : Operand → Except Stop Value
  | .constant value => .ok value
  | .register number =>
    match m.registers[number]? with
    | some value => .ok value
    | none => .error .stuck

def assign (m : Machine) (dest : Nat) (value : Value) : Machine :=
  { m with registers := m.registers.insert dest value, index := m.index + 1 }

def jump (m : Machine) (block : Nat) : Machine := { m with block, index := 0 }

def call (m : Machine) (callee : String) : List (Ty × Operand) → Except Stop Machine
  | [(ty, operand)] => do
    let v ← m.value operand
    if callee = printer ty ∧ v.ty = ty then
      .ok { m with output := m.output.push v.text, index := m.index + 1 }
    else .error .stuck
  | _ => .error .stuck

def instruction (m : Machine) : Instruction → Except Stop Machine
  | .load dest slot _ =>
    match m.slots[slot]? with
    | some v => .ok (m.assign dest v)
    | none => .error .stuck
  | .store slot _ operand => do
    let v ← m.value operand
    .ok { m with slots := m.slots.insert slot v, index := m.index + 1 }
  | .binary dest op _ left right => do
    .ok (m.assign dest (← op.apply (← m.value left) (← m.value right)))
  | .icmp dest predicate _ left right => do
    .ok (m.assign dest (← predicate.applyInt (← m.value left) (← m.value right)))
  | .fcmp dest predicate left right => do
    .ok (m.assign dest (← predicate.applyFloat (← m.value left) (← m.value right)))
  | .neg dest _ operand => do .ok (m.assign dest (← negate (← m.value operand)))
  | .call callee args => m.call callee args

def terminator (m : Machine) : Terminator → Except Stop Machine
  | .br target => .ok (m.jump target)
  | .condBr condition onTrue onFalse => do
    match ← m.value condition with
    | .bool b => .ok (m.jump (if b then onTrue else onFalse))
    | _ => .error .stuck
  | .ret operand => do .error (.returned (← m.value operand))

def step (f : Function) (m : Machine) : Except Stop Machine :=
  match f.blocks[m.block]? with
  | none => .error .stuck
  | some block =>
    match block.instructions[m.index]?, block.terminator with
    | some i, _ => m.instruction i
    | none, some t => m.terminator t
    | none, none => .error .stuck

/-- The machine after at most `steps` steps, and why it stopped if it did. -/
def run (f : Function) : (steps : Nat) → Machine → Machine × Option Stop
  | 0, m => (m, none)
  | steps + 1, m =>
    match m.step f with
    | .ok next => run f steps next
    | .error stop => (m, some stop)

end Machine

end Leveret.Code
