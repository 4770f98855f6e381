import Leveret.Command.Response

/-!
# The program

Reads the file named in the arguments and delivers the answer.
-/

open Leveret

def deliver (r : Response) : IO UInt32 := do
  IO.print r.stdout
  IO.eprint r.stderr
  return r.code.toUInt32

def main (args : List String) : IO UInt32 := do
  match Options.ofArgs args with
  | .error e => deliver (.usage e)
  | .ok options =>
    match ← (IO.FS.readFile options.input).toBaseIO with
    | .error _ => deliver (.unreadable options.input)
    | .ok source => deliver (.ofSource options source)
