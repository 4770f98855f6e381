/-!
# Positions

Where a thing stands in a named source, and the stretch between two such places.
-/

namespace Leveret

/-- A byte offset into the source called `file`. -/
structure Position where
  offset : Nat
  file : String
deriving DecidableEq, Inhabited

namespace Position

/-- Offsets are kept in 32 bits, so they are exact below 4 GiB. -/
def ofIndex (index : Nat) (file : String) : Position := ⟨index % 0x100000000, file⟩

/-- The position of what belongs to no source. -/
def nowhere : Position := ⟨0, "<null>"⟩

end Position

structure Span where
  start : Position
  stop : Position
deriving DecidableEq, Inhabited

def Span.ofIndex (index size : Nat) (file : String) : Span :=
  ⟨.ofIndex index file, .ofIndex (index + size) file⟩

end Leveret
