import Leveret.Pipeline

/-!
# Command line options

What the arguments of the program ask for. The last backend named counts.
-/

namespace Leveret

structure Options where
  backend : Backend
  verbose : Bool
  input : String
deriving DecidableEq

inductive UsageError where
  | missingInput
  | unknownOption (option : String)
  | extraInput (input : String)
deriving DecidableEq

namespace UsageError

def message : UsageError → String
  | missingInput => "no input file given"
  | unknownOption option => s!"unknown option `{option}`"
  | extraInput input => s!"more than one input file given (`{input}`)"

end UsageError

namespace Options

def usage : String := "usage: wabbit [--run | --emit-ir] [--verbose] <file>"

def read (backend : Backend) (verbose : Bool) (input : Option String) :
    List String → Except UsageError Options
  | [] =>
    match input with
    | some input => .ok ⟨backend, verbose, input⟩
    | none => .error .missingInput
  | arg :: rest =>
    if arg = "--run" then read .run verbose input rest
    else if arg = "--emit-ir" then read .emitCode verbose input rest
    else if arg = "-v" ∨ arg = "--verbose" then read backend true input rest
    else if arg.toList.head? = some '-' then .error (.unknownOption arg)
    else if input.isSome then .error (.extraInput arg)
    else read backend verbose (some arg) rest

def ofArgs (args : List String) : Except UsageError Options := read .run false none args

end Options

end Leveret
