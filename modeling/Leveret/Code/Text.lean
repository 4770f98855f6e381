import Leveret.Code.Basic
import Leveret.Double.Exact

/-!
# The text of block code

Block code in the notation of an assembler with named blocks and typed operands.
-/

namespace Leveret

open Text

def natural (n : Nat) : String := String.ofList (writeNatural n)

def Ty.codeName : Ty → String
  | int => "i32"
  | float => "double"
  | bool => "i1"

/-- The value as a constant of the code, in which no bit of a double is lost. -/
def Value.codeText : Value → String
  | float value => String.ofList value.exact
  | value => value.text

namespace Code

def Operand.text : Operand → String
  | register number => "%r" ++ natural number
  | constant value => value.codeText

def Opcode.all : List Opcode := [add, sub, mul, sdiv, fadd, fsub, fmul, fdiv, and, or]

def Opcode.mnemonic : Opcode → String
  | add => "add"
  | sub => "sub"
  | mul => "mul"
  | sdiv => "sdiv"
  | fadd => "fadd"
  | fsub => "fsub"
  | fmul => "fmul"
  | fdiv => "fdiv"
  | and => "and"
  | or => "or"

def Predicate.intMnemonic : Predicate → String
  | eq => "eq"
  | ne => "ne"
  | lt => "slt"
  | gt => "sgt"
  | le => "sle"
  | ge => "sge"

def Predicate.floatMnemonic : Predicate → String
  | eq => "oeq"
  | ne => "une"
  | lt => "olt"
  | gt => "ogt"
  | le => "ole"
  | ge => "oge"

def binaryText (dest : Nat) (word ty : String) (left right : Operand) : String :=
  s!"%r{natural dest} = {word} {ty} {left.text}, {right.text}"

def Instruction.text : Instruction → String
  | load dest slot ty =>
    s!"%r{natural dest} = load {ty.codeName}, {ty.codeName}* %s{natural slot}"
  | store slot ty value =>
    s!"store {ty.codeName} {value.text}, {ty.codeName}* %s{natural slot}"
  | binary dest op ty left right => binaryText dest op.mnemonic ty.codeName left right
  | icmp dest predicate ty left right =>
    binaryText dest ("icmp " ++ predicate.intMnemonic) ty.codeName left right
  | fcmp dest predicate left right =>
    binaryText dest ("fcmp " ++ predicate.floatMnemonic) Ty.float.codeName left right
  | neg dest .float operand => s!"%r{natural dest} = fneg {Ty.float.codeName} {operand.text}"
  | neg dest ty operand => s!"%r{natural dest} = sub {ty.codeName} 0, {operand.text}"
  | call callee args =>
    let list := ", ".intercalate (args.map fun (ty, operand) => s!"{ty.codeName} {operand.text}")
    s!"call void @{callee}({list})"

namespace Function

/-- The label of a block; none for a number that belongs to no block. -/
def label (f : Function) (block : Nat) : String := (f.blocks[block]?.map (·.label)).getD ""

/-- A constant states its own type when it is returned, a register that of the function. -/
def terminatorText (f : Function) : Terminator → String
  | .br target => s!"br label %{f.label target}"
  | .condBr condition onTrue onFalse =>
    s!"br i1 {condition.text}, label %{f.label onTrue}, label %{f.label onFalse}"
  | .ret (.constant value) => s!"ret {value.ty.codeName} {value.codeText}"
  | .ret operand => s!"ret {f.returns.codeName} {operand.text}"

def slotLine (number : Nat) (slot : Slot) : String :=
  s!"  %s{natural number} = alloca {slot.ty.codeName} ; {slot.name}\n"

def slotLines (f : Function) : String :=
  String.join (f.slots.toList.mapIdx slotLine)

def blockText (f : Function) (head : String) (b : BasicBlock) : String :=
  let body := String.join (b.instructions.toList.map fun i => s!"  {i.text}\n")
  let ending := (b.terminator.map f.terminatorText).getD "unreachable"
  s!"{b.label}:\n{head}{body}  {ending}\n"

/-- The blocks with an empty line between them. The slots are listed in the first. -/
def blockTexts (f : Function) : List String :=
  match f.blocks.toList with
  | [] => []
  | first :: rest => f.blockText f.slotLines first :: rest.map (f.blockText "")

def text (f : Function) : String :=
  s!"define {f.returns.codeName} @{f.name}() \x7b\n" ++ "\n".intercalate f.blockTexts ++ "\x7d\n"

end Function

def Extern.text (e : Extern) : String :=
  let params := ", ".intercalate (e.params.map Ty.codeName)
  s!"declare void @{e.name}({params})\n"

def Module.text (m : Module) : String :=
  s!"; ModuleID = '{m.name}'\n" ++ String.join (m.externs.map Extern.text) ++
    String.join (m.functions.map fun f => "\n" ++ f.text)

end Code

end Leveret
