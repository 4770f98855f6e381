import Leveret.Command.Options
import Leveret.Diagnostic.Report

/-!
# Answers on the command line

What the program writes and the code it exits with: 0 if all went well, 1 if the source or its run
is at fault, 2 if the arguments are.
-/

namespace Leveret

structure Response where
  code : UInt8
  stdout : String
  stderr : String
deriving DecidableEq

namespace Response

def lines (texts : List String) : String := String.join (texts.map (· ++ "\n"))

def fileName (path : String) : String :=
  let parts := (path.splitOn "/").filter fun part => part ≠ "" ∧ part ≠ "."
  match parts.getLast? with
  | none => path
  | some name => if name = ".." then path else name

def usage (e : UsageError) : Response := ⟨2, "", lines [e.message, Options.usage]⟩

def unreadable (path : String) : Response := ⟨1, "", lines [s!"failed to read input: {path}"]⟩

def ofFailure (source : String) : Failure → Response
  | ⟨output, .failed d⟩ => ⟨1, lines output, d.report source⟩
  | ⟨output, .unfinished⟩ => ⟨1, lines output, ""⟩

def ofOutput : Output → Response
  | .printed output => ⟨0, lines output, ""⟩
  | .code text => ⟨0, text, ""⟩

/-- The answer to `options`, whose input holds `source`. -/
def ofSource (options : Options) (source : String) : Response :=
  let file := fileName options.input
  match checkSource source file with
  | .error errors => ⟨1, "", String.join (errors.map (·.report source))⟩
  | .ok p =>
    match execute patience p options.backend file with
    | .ok output => ofOutput output
    | .error failure => ofFailure source failure

end Response

end Leveret
