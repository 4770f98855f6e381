import Leveret.Diagnostic.Cause
import Leveret.Source.Position

/-!
# Diagnostics

A fault together with the place it was found at.
-/

namespace Leveret

structure Diagnostic where
  cause : Cause
  position : Position
deriving DecidableEq, Inhabited

namespace Diagnostic

def summary (d : Diagnostic) : String :=
  d.cause.name ++ ": " ++ d.cause.message

end Diagnostic

end Leveret
