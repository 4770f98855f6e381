import Leveret.Text.Blank
import Leveret.Token.Basic

/-!
# Patterns

What may stand at the start of the remaining text. A pattern either finds its lexeme there, which
is never empty, or does not apply. The order of the patterns matters: of two marks the longer one
comes first, and a decimal number comes before a whole one.
-/

namespace Leveret

open Text

inductive Pattern where
  | blanks | lineComment | blockComment | word | decimal | digits
  | mark (kind : Kind) (text : List Char)
deriving DecidableEq

namespace Pattern

/-! ## Lexemes -/

def isWordStart (c : Char) : Bool := c.isAlpha || c = '_'

def isWordPart (c : Char) : Bool := c.isAlphanum || c = '_'

def throughClose? : List Char → Option (List Char)
  | [] => none
  | '*' :: '/' :: _ => some ['*', '/']
  | c :: rest => (throughClose? rest).map (c :: ·)

def lineComment? : List Char → Option (List Char)
  | '/' :: '/' :: rest => some ('/' :: '/' :: rest.takeWhile (· ≠ '\n'))
  | _ => none

/-- A comment that is never closed is no comment. -/
def blockComment? : List Char → Option (List Char)
  | '/' :: '*' :: rest => (throughClose? rest).map fun body => '/' :: '*' :: body
  | _ => none

def word? : List Char → Option (List Char)
  | [] => none
  | c :: rest => if isWordStart c then some (c :: rest.takeWhile isWordPart) else none

/-- Digits around a point, of which those before it or those after it may be missing. -/
def decimal? (text : List Char) : Option (List Char) :=
  let whole := text.takeWhile Char.isDigit
  match text.dropWhile Char.isDigit with
  | '.' :: rest =>
    let fraction := rest.takeWhile Char.isDigit
    if whole = [] ∧ fraction = [] then none else some (whole ++ '.' :: fraction)
  | _ => none

def run? (p : Char → Bool) (text : List Char) : Option (List Char) :=
  match text.takeWhile p with
  | [] => none
  | run => some run

def lexeme? : Pattern → List Char → Option (List Char)
  | blanks => run? isBlank
  | lineComment => lineComment?
  | blockComment => blockComment?
  | word => word?
  | decimal => decimal?
  | digits => run? Char.isDigit
  | mark _ text => fun input => if text.isPrefixOf input then some text else none

/-- The kind of token that a lexeme makes; none for what is skipped. -/
def kind? : Pattern → List Char → Option Kind
  | blanks, _ | lineComment, _ | blockComment, _ => none
  | word, lexeme => some ((Kind.ofWord? (String.ofList lexeme)).getD .identifier)
  | decimal, _ => some .float
  | digits, _ => some .integer
  | mark kind _, _ => some kind

/-! ## The order -/

def marks : List Pattern :=
  [mark .openCurly ['\x7b'], mark .closeCurly ['\x7d'], mark .openParen ['('],
   mark .closeParen [')'], mark .equals ['=', '='], mark .notEquals ['!', '='],
   mark .assignment ['='], mark .lessEquals ['<', '='], mark .less ['<'],
   mark .greaterEquals ['>', '='], mark .greater ['>'], mark .or ['|', '|'],
   mark .and ['&', '&'], mark .semicolon [';'], mark .plus ['+'], mark .dash ['-'],
   mark .slash ['/'], mark .star ['*']]

def all : List Pattern :=
  [blanks, lineComment, blockComment, word, decimal, digits] ++ marks

/-- The first pattern that applies, with its lexeme. -/
def first? (text : List Char) : Option (Pattern × List Char) :=
  all.findSome? fun pattern => (pattern.lexeme? text).map (pattern, ·)

/-! ## What a lexeme is -/

theorem throughClose?_isPrefix {text lexeme : List Char} (h : throughClose? text = some lexeme) :
    lexeme <+: text := by
  fun_induction throughClose? text generalizing lexeme with
  | case1 => simp at h
  | case2 rest => simp only [Option.some.injEq] at h; subst h; simp
  | case3 c rest _ ih =>
    obtain ⟨body, hb, rfl⟩ := Option.map_eq_some_iff.1 h
    simpa using ih hb

theorem run?_isPrefix {p : Char → Bool} {text lexeme : List Char} (h : run? p text = some lexeme) :
    lexeme <+: text := by
  unfold run? at h
  split at h
  · simp at h
  · simp only [Option.some.injEq] at h
    rw [← h]
    exact List.takeWhile_prefix p

theorem lexeme?_isPrefix {p : Pattern} {text lexeme : List Char}
    (h : p.lexeme? text = some lexeme) : lexeme <+: text := by
  cases p with
  | blanks => exact run?_isPrefix h
  | digits => exact run?_isPrefix h
  | lineComment =>
    simp only [lexeme?, lineComment?] at h
    split at h
    · simp only [Option.some.injEq] at h
      subst h
      simp [List.takeWhile_prefix]
    · simp at h
  | blockComment =>
    simp only [lexeme?, blockComment?] at h
    split at h
    · obtain ⟨body, hb, rfl⟩ := Option.map_eq_some_iff.1 h
      simpa using throughClose?_isPrefix hb
    · simp at h
  | word =>
    simp only [lexeme?, word?] at h
    split at h
    · simp at h
    · split at h
      · simp only [Option.some.injEq] at h
        subst h
        simp [List.takeWhile_prefix]
      · simp at h
  | decimal =>
    simp only [lexeme?, decimal?] at h
    split at h
    · rename_i rest hd
      split at h
      · simp at h
      · simp only [Option.some.injEq] at h
        subst h
        conv => rhs; rw [← List.takeWhile_append_dropWhile (p := Char.isDigit) (l := text), hd]
        simp [List.takeWhile_prefix]
    · simp at h
  | mark kind mark =>
    simp only [lexeme?] at h
    split at h
    · rename_i hp
      simp only [Option.some.injEq] at h
      subst h
      exact List.isPrefixOf_iff_prefix.1 hp
    · simp at h

theorem mark_ne_nil : ∀ p ∈ all, ∀ kind text, p = mark kind text → text ≠ [] := by
  intro p hp kind text h
  subst h
  simp only [all, marks, List.cons_append, List.nil_append, List.mem_cons, mark.injEq,
    List.not_mem_nil, reduceCtorEq, false_or, or_false] at hp
  rcases hp with h | h | h | h | h | h | h | h | h | h | h | h | h | h | h | h | h | h <;>
    simp [h.2]

theorem run?_ne_nil {p : Char → Bool} {text lexeme : List Char} (h : run? p text = some lexeme) :
    lexeme ≠ [] := by
  unfold run? at h
  split at h
  · simp at h
  · rename_i hne
    simp only [Option.some.injEq] at h
    exact h ▸ hne

/-- A lexeme is never empty, so the lexer always moves on. -/
theorem lexeme?_ne_nil {p : Pattern} (hp : p ∈ all) {text lexeme : List Char}
    (h : p.lexeme? text = some lexeme) : lexeme ≠ [] := by
  cases p with
  | blanks => exact run?_ne_nil h
  | digits => exact run?_ne_nil h
  | lineComment =>
    simp only [lexeme?, lineComment?] at h
    split at h
    · simp only [Option.some.injEq] at h
      simp [← h]
    · simp at h
  | blockComment =>
    simp only [lexeme?, blockComment?] at h
    split at h
    · obtain ⟨body, _, rfl⟩ := Option.map_eq_some_iff.1 h
      simp
    · simp at h
  | word =>
    simp only [lexeme?, word?] at h
    split at h
    · simp at h
    · split at h
      · simp only [Option.some.injEq] at h
        simp [← h]
      · simp at h
  | decimal =>
    simp only [lexeme?, decimal?] at h
    split at h
    · split at h
      · simp at h
      · simp only [Option.some.injEq] at h
        simp [← h]
    · simp at h
  | mark kind mark =>
    simp only [lexeme?] at h
    split at h
    · simp only [Option.some.injEq] at h
      exact h ▸ mark_ne_nil _ hp kind mark rfl
    · simp at h

end Pattern

end Leveret
