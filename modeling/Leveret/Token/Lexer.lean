import Leveret.Diagnostic.Basic
import Leveret.Text.Bytes
import Leveret.Token.Pattern

/-!
# Lexing

From the characters of a source to its tokens. The lexer takes the first pattern that applies
where it stands, makes a token of the lexeme unless it is to be skipped, and goes on behind it. It
fails where no pattern applies.
-/

namespace Leveret

open Text

/-! ## The scanner -/

/-- A source and a byte offset into it. The offset may stand inside a character or past the end. -/
structure Scanner where
  file : String
  source : List Char
  offset : Nat
deriving DecidableEq

namespace Scanner

def unnamed : String := "shell"

def ofSource (source : String) (file : String) : Scanner := ⟨file, source.toList, 0⟩

def advance (s : Scanner) (n : Nat) : Scanner := { s with offset := s.offset + n }

def atEnd (s : Scanner) : Bool := byteSize s.source ≤ s.offset

/-- The text from the offset on, or from the next character if the offset stands inside one. -/
def rest (s : Scanner) : List Char := dropBytes s.offset s.source

def head (s : Scanner) : Char := s.rest.headD '\x00'

def position (s : Scanner) : Position := .ofIndex s.offset s.file

def span (s : Scanner) (n : Nat) : Span := .ofIndex s.offset n s.file

end Scanner

/-! ## The lexer -/

namespace Token

/-- The tokens of the text, of which the first `skip` characters belong to a lexeme that is
already taken. -/
def scan (file : String) : (skip offset : Nat) → List Char → Except Diagnostic (List Token)
  | _, offset, [] => .ok [.endOfFile (.ofIndex offset file)]
  | skip + 1, offset, c :: rest => scan file skip (offset + c.utf8Size) rest
  | 0, offset, c :: rest =>
    match Pattern.first? (c :: rest) with
    | none => .error ⟨.unrecognisedToken (String.singleton c), .ofIndex offset file⟩
    | some (pattern, lexeme) =>
      let more := scan file (lexeme.length - 1) (offset + c.utf8Size) rest
      match pattern.kind? lexeme with
      | none => more
      | some kind =>
        more.map (⟨kind, String.ofList lexeme, .ofIndex offset (byteSize lexeme) file⟩ :: ·)

/-- The tokens of a source, with the one that ends it, or the first character that begins none. -/
def ofSource (source file : String) : Except Diagnostic (List Token) :=
  scan file 0 0 source.toList

end Token

end Leveret
