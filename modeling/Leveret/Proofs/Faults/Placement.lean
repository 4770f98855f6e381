import Leveret.Diagnostic.Report
import Leveret.Proofs.Code.Agreement
import Leveret.Proofs.Faults.Places
import Leveret.Proofs.Grammar.FirstFault
import Leveret.Proofs.Lines
import Leveret.Proofs.Running.Reached
import Leveret.Proofs.Tokens.Lossless

/-!
# Faults point into the source

A source is rejected for one fault of its spelling or for faults of its types, and a program that
was accepted never fails for its types. Every fault is at a token, at the character that begins
none, or at the end, and so its report shows a line of the source.
-/

namespace Leveret

open Text

def Cause.isSpelling : Cause → Bool
  | unrecognisedToken _ | unexpectedToken _ | unexpectedTokenDetailed .. | numberParseError _ => true
  | _ => false

theorem Cause.Misplaced.isSpelling {cause : Cause} (h : cause.Misplaced) :
    cause.isSpelling = true := by
  cases h <;> rfl

section Spelling

variable {file : String} {d : Diagnostic}

theorem Token.isSpelling_of_scan {text : List Char} {skip offset : Nat}
    (h : scan file skip offset text = .error d) : d.cause.isSpelling = true := by
  obtain ⟨c, rest, offset, -, rfl⟩ := scan_eq_error h
  rfl

theorem Program.isSpelling_of_error {source : String} {tokens : List Token}
    (htokens : Token.ofSource source file = .ok tokens) (h : ofTokens tokens file = .error d) :
    d.cause.isSpelling = true := by
  obtain ⟨words, eof, rfl, heof, hplain⟩ := Token.plain_of_scan htokens
  obtain ⟨e, hrun⟩ := ofTokens_eq_error h
  have hstops :=
    (Grammar.statements_faults _ _ (Cursor.ofTokens_lexed heof hplain file)).bad_of hrun
  obtain ⟨-, -, ⟨text, htext⟩ | ⟨hmisplaced, -⟩⟩ := hstops.read
  · rw [htext]
    rfl
  · exact hmisplaced.isSpelling

theorem Program.isSpelling_of_ofSource {source : String} (h : ofSource source file = .error d) :
    d.cause.isSpelling = true := by
  rw [ofSource] at h
  cases htokens : Token.ofSource source file with
  | error d' =>
    rw [htokens] at h
    cases h
    exact Token.isSpelling_of_scan htokens
  | ok tokens =>
    rw [htokens] at h
    exact isSpelling_of_error htokens h

end Spelling

/-! ## Places in a source -/

/-- The places that a fault can be at: where a token was cut from, at the character that begins
none, and at the end. -/
inductive Spot (source file : String) : Position → Prop
  | token {tokens t} : Token.ofSource source file = .ok tokens → t ∈ tokens →
      t.CutFrom source file → Spot source file t.span.start
  | stuck {before c after} : source = before ++ String.singleton c ++ after →
      Token.ofSource source file =
        .error ⟨.unrecognisedToken (String.singleton c), ⟨before.utf8ByteSize, file⟩⟩ →
      Spot source file ⟨before.utf8ByteSize, file⟩
  | finish : Spot source file ⟨source.utf8ByteSize, file⟩

namespace Diagnostic

/-- The report with this line, which is `shown` behind its number, and below it a caret behind so
many dashes. -/
def page (d : Diagnostic) (number : Nat) (shown : List Char) (dashes : Nat) : String :=
  let number := String.ofList (writeNatural number)
  let gutter := String.ofList (List.replicate (number.length + 1) ' ') ++ "|"
  let shown := String.ofList shown
  let lead := String.ofList (List.replicate dashes '-')
  s!"{d.heading}-> {d.position.file}\n" ++ s!"{gutter}\n{number} | {shown}\n{gutter} {lead}^\n"

theorem report_of_at? {d : Diagnostic} {source : String} {line : Line}
    (h : Line.at? source.toList d.position.offset = some line) :
    d.report source = d.page line.number (trimBlanks (line.text.dropWhile isIndent))
      (line.column - (line.text.takeWhile isIndent).length) := by
  rw [report, h]
  rfl

end Diagnostic

section Spot

variable {source file : String} {position : Position}

theorem Spot.bounded (h : Spot source file position) :
    position.file = file ∧ position.offset ≤ source.utf8ByteSize := by
  have hwithin (before middle behind : String) :
      before.utf8ByteSize ≤ (before ++ middle ++ behind).utf8ByteSize := by
    rw [String.utf8ByteSize_append, String.utf8ByteSize_append]
    omega
  cases h with
  | token _ _ hcut =>
    obtain ⟨before, behind, rfl, hspan⟩ := hcut.slice
    rw [hspan]
    exact ⟨rfl, hwithin _ _ _⟩
  | stuck hsource =>
    subst hsource
    exact ⟨rfl, hwithin _ _ _⟩
  | finish => exact ⟨rfl, Nat.le_refl _⟩

variable (hsize : source.utf8ByteSize < 2 ^ 32)
include hsize

theorem Token.spot_of_error {d : Diagnostic} (h : Token.ofSource source file = .error d) :
    d.cause.isSpelling = true ∧ Spot source file d.position := by
  obtain ⟨before, after, words, hsplit, -, hends⟩ :=
    scan_laid file source.toList 0 (by rwa [Nat.zero_add, byteSize_toList])
  have hscan : scan file 0 0 source.toList = .error d := h
  rw [hscan, Nat.zero_add] at hends
  cases hends with
  | @stuck c rest _ _ =>
    have hsource : source = String.ofList before ++ String.singleton c ++ String.ofList rest :=
      String.toList_inj.1 (by simp [hsplit])
    have hoffset : byteSize before = (String.ofList before).utf8ByteSize := by
      rw [← byteSize_toList, String.toList_ofList]
    rw [hoffset] at h ⊢
    exact ⟨rfl, .stuck hsource h⟩

theorem Token.spot_of_mem {tokens : List Token} (h : Token.ofSource source file = .ok tokens)
    {t : Token} (ht : t ∈ tokens) : Spot source file t.span.start := by
  obtain ⟨words, rfl, hlaid⟩ := laid_of_ofSource hsize h
  rcases List.mem_append.1 ht with hword | heof
  · exact .token h ht (hlaid.cutFrom hword)
  · rw [List.mem_singleton.1 heof]
    exact .finish

theorem Program.spot_of_error {tokens : List Token} {d : Diagnostic}
    (htokens : Token.ofSource source file = .ok tokens) (h : ofTokens tokens file = .error d) :
    d.cause.isSpelling = true ∧ Spot source file d.position := by
  refine ⟨isSpelling_of_error htokens h, ?_⟩
  obtain ⟨words, eof, rfl, heof, hplain⟩ := Token.plain_of_scan htokens
  obtain ⟨e, hrun⟩ := ofTokens_eq_error h
  have hstops :=
    (Grammar.statements_faults _ _ (Cursor.ofTokens_lexed heof hplain file)).bad_of hrun
  obtain ⟨before, hcovers, -⟩ := hstops.read
  have hcurrent : e.current ∈ words ++ [eof] := by
    have hpending := hcovers.pending
    rw [Cursor.ofTokens_append words heof] at hpending
    have hfinal : e.final = eof := by
      rw [hcovers.final]
      simp [Cursor.ofTokens, heof]
    rw [hpending, Cursor.current, hfinal]
    cases e.pending <;> simp
  exact hstops.position ▸ Token.spot_of_mem hsize htokens hcurrent

theorem Program.spot_of_ofSource {d : Diagnostic} (h : ofSource source file = .error d) :
    d.cause.isSpelling = true ∧ Spot source file d.position := by
  rw [ofSource] at h
  cases htokens : Token.ofSource source file with
  | error d' =>
    rw [htokens] at h
    cases h
    exact Token.spot_of_error hsize htokens
  | ok tokens =>
    rw [htokens] at h
    exact spot_of_error hsize htokens h

theorem Program.placed_ofSource {p : Program} (h : ofSource source file = .ok p) :
    Placed (Spot source file) p.parts := by
  obtain ⟨tokens, htokens, hp⟩ := bind_eq_ok.1 h
  exact placed_ofTokens hp fun t ht => Token.spot_of_mem hsize htokens ht

end Spot

/-! ## The pipeline -/

theorem CheckedProgram.execute_failed {p : CheckedProgram} {place : Position → Prop} {limit : Nat}
    {backend : Backend} {name : String} {output : List String} {d : Diagnostic}
    (hp : p.WellTyped) (hplaced : Placed place p.program.parts)
    (h : execute limit p backend name = .error ⟨output, .failed d⟩) :
    d.cause = .divisionByZero ∧ place d.position := by
  cases backend with
  | run =>
    have hhalt : (p.program.run limit).halt = some (.failed d) := by
      rw [execute] at h
      split at h
      · cases h
      · rename_i hrun
        cases h
        rw [hrun]
    refine ⟨?_, Program.run_failsAt hplaced hhalt⟩
    cases hp.run_allowed hhalt
    rfl
  | emitCode =>
    obtain ⟨m, -, hm, -⟩ := Code.program_code hp name
    rw [execute, hm] at h
    cases h

/-- The code of a program that was accepted is always made, so that only LLVM can object to it. -/
theorem Llvm.execute_failed {p : CheckedProgram} {write : Code.Module → String → Except String Unit}
    {limit : Nat} {path name : String} {output : List String} {d : Diagnostic} (hp : p.WellTyped)
    (h : execute write limit p (.emit path) name = .error ⟨output, .failed d⟩) :
    ∃ m message, p.lower name = .ok m ∧ write m path = .error message ∧
      d = ⟨.codegenError message, .nowhere⟩ := by
  obtain ⟨m, -, hm, -⟩ := Code.program_code hp name
  rw [execute, hm] at h
  dsimp only at h
  cases hwrite : write m path with
  | ok _ =>
    rw [hwrite] at h
    cases h
  | error message =>
    rw [hwrite] at h
    cases h
    exact ⟨m, message, hm, hwrite, rfl⟩

end Leveret
