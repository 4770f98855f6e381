import Leveret.Text.Bytes

/-!
# Lines

Which line of a text a byte offset falls on. A line keeps its newline, so the lines of a text put
together are the text. The offset at the very end belongs to the last line.
-/

namespace Leveret

open Text

/-- A line of a text: its number from one, its characters, and the offset asked for within it. -/
structure Line where
  number : Nat
  text : List Char
  column : Nat
deriving DecidableEq

namespace Line

def split : List Char → List (List Char)
  | [] => []
  | c :: rest =>
    if c = '\n' then [c] :: split rest
    else match split rest with
      | [] => [[c]]
      | line :: more => (c :: line) :: more

theorem flatten_split (text : List Char) : (split text).flatten = text := by
  induction text with
  | nil => rfl
  | cons c rest ih =>
    rw [split]
    split
    · simp [ih]
    · split <;> rename_i h <;> rw [h] at ih <;> simp_all

structure Underflow where
  offset : Nat
  start : Nat
deriving DecidableEq

def distance (offset start : Nat) : Except Underflow Nat :=
  if start ≤ offset then .ok (offset - start) else .error ⟨offset, start⟩

/-- Walks down lines of which the first begins at `start` and has number `number`, with the line
before it at hand. Behind all of them is only the offset at the end of the text, at `size`. -/
def walk (size offset : Nat) :
    List (List Char) → (start number : Nat) → Option Line → Except Underflow (Option Line)
  | [], _, _, last => .ok (if offset = size then last.or (some ⟨1, [], 0⟩) else none)
  | line :: more, start, number, _ =>
    match distance offset start with
    | .error e => .error e
    | .ok column =>
      let stop := start + byteSize line
      if start ≤ offset ∧ offset < stop then .ok (some ⟨number, line, column⟩)
      else walk size offset more stop (number + 1) (some ⟨number, line, column⟩)

def search (text : List Char) (offset : Nat) : Except Underflow (Option Line) :=
  if byteSize text < offset then .ok none
  else walk (byteSize text) offset (split text) 0 1 none

/-- The line that holds the byte at `offset`. An empty text has one empty line. The search does not
fail, since no line that it comes to begins behind the offset. -/
def at? (text : List Char) (offset : Nat) : Option Line :=
  match search text offset with
  | .ok found => found
  | .error _ => none

end Line

end Leveret
