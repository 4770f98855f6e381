import Leveret.Diagnostic.Basic
import Leveret.Source.Line
import Leveret.Text.Blank
import Leveret.Text.Number

/-!
# Reports

A diagnostic as it is shown to the user: the fault and its tip, the file, and the source line with
a caret below the place.

    Error: UnrecognisedToken
    -> final.wb
       |
    20 | var a = #;
       | --------^
-/

namespace Leveret

open Text

namespace Diagnostic

def isIndent (c : Char) : Bool := c = ' ' || c = '\t'

def heading (d : Diagnostic) : String :=
  match d.cause.tip? with
  | none => s!"Error: {d.cause.name}\n"
  | some tip => s!"Error: {d.cause.name} ({tip})\n"

/-- The dashes that lead to the caret, one for each byte of the line before the place. There may be
any number of them: formatters that refuse to pad to more than 65535 columns are not followed. -/
def caretLead (line : Line) : Nat :=
  line.column - (line.text.takeWhile isIndent).length

def excerpt (line : Line) : String :=
  let number := String.ofList (writeNatural line.number)
  let gutter := String.ofList (List.replicate (number.length + 1) ' ') ++ "|"
  let shown := String.ofList (trimBlanks (line.text.dropWhile isIndent))
  let lead := String.ofList (List.replicate (caretLead line) '-')
  s!"{gutter}\n{number} | {shown}\n{gutter} {lead}^\n"

/-- The report ends after the file name if the place lies outside the source. -/
def report (d : Diagnostic) (source : String) : String :=
  let head := s!"{d.heading}-> {d.position.file}\n"
  match Line.at? source.toList d.position.offset with
  | none => head
  | some line => head ++ excerpt line

end Diagnostic

end Leveret
