import Leveret.Code.Lowering
import Leveret.Code.Text
import Leveret.Eval.Basic
import Leveret.Token.Lexer
import Leveret.Tree.Parser

/-!
# From source to answer

The passes in a row: a source is lexed, parsed and checked, and a program that is in order is run
or made into code.
-/

namespace Leveret

/-- The program that a source spells, or the first fault. -/
def Program.ofSource (source file : String) : Except Diagnostic Program := do
  Program.ofTokens (← Token.ofSource source file) file

/-- A program in order, or what is wrong: one fault of its spelling or all faults of its types. -/
def checkSource (source file : String) : Except (List Diagnostic) CheckedProgram :=
  match Program.ofSource source file with
  | .error d => .error [d]
  | .ok p => p.check.accept p

/-- What is done with a program that is in order. -/
inductive Backend where
  | run
  | emitCode
deriving DecidableEq

inductive Output where
  | printed (lines : List String)
  | code (text : String)
deriving DecidableEq

/-- The end of a backend before its time, with the lines printed up to there. -/
structure Failure where
  output : List String
  halt : Halt
deriving DecidableEq

/-- Hands a program to a backend. `limit` bounds the passes of each loop of a run. -/
def execute (limit : Nat) (p : CheckedProgram) (backend : Backend) (moduleName : String) :
    Except Failure Output :=
  match backend with
  | .run =>
    match p.program.run limit with
    | ⟨output, none⟩ => .ok (.printed output)
    | ⟨output, some halt⟩ => .error ⟨output, halt⟩
  | .emitCode =>
    match p.lower moduleName with
    | .ok m => .ok (.code m.text)
    | .error d => .error ⟨[], .failed d⟩

/-! ## With LLVM

A build with LLVM, which is not the default one, has one backend more: it writes the code to a file.
LLVM itself is not part of this. What it does is a parameter, `write`, which may fail with a
message. -/

namespace Llvm

inductive Backend where
  | plain (backend : Leveret.Backend)
  | emit (path : String)
deriving DecidableEq

inductive Output where
  | plain (output : Leveret.Output)
  | written (path : String)
deriving DecidableEq

/-- What LLVM finds fault with has no place in the source. -/
def execute (write : Code.Module → String → Except String Unit) (limit : Nat) (p : CheckedProgram)
    (backend : Backend) (moduleName : String) : Except Failure Output :=
  match backend with
  | .plain backend => (Leveret.execute limit p backend moduleName).map .plain
  | .emit path =>
    match p.lower moduleName with
    | .error d => .error ⟨[], .failed d⟩
    | .ok m =>
      match write m path with
      | .ok () => .ok (.written path)
      | .error message => .error ⟨[], .failed ⟨.codegenError message, .nowhere⟩⟩

end Llvm

/-- More passes than any loop gets through, yet a number that fits in a machine word. -/
def patience : Nat := Nat.pow 2 62

end Leveret
