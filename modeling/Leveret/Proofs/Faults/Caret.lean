import Leveret.Proofs.Faults.Placement
import Leveret.Proofs.Tokens.Spacing
import Mathlib.Data.List.DropRight

/-!
# The caret of a report

The caret stands behind a dash for every byte between the indentation of the line and the place,
while the line above it is shown in characters and without the blanks around it. So it is below the
character at the place if and only if what is in front has characters of one byte only and does
not begin with a blank.
-/

namespace Leveret

open Text

namespace Text

/-! ## Counting in bytes -/

variable {text rest : List Char} {c : Char}

theorem length_le_byteSize (text : List Char) : text.length ≤ byteSize text := by
  induction text with
  | nil => exact Nat.le_refl _
  | cons c rest ih =>
    have := c.utf8Size_pos
    rw [List.length_cons, byteSize_cons]
    omega

theorem byteSize_eq_length_iff : byteSize text = text.length ↔ ∀ c ∈ text, c.utf8Size = 1 := by
  induction text with
  | nil => simp
  | cons c rest ih =>
    have hpos := c.utf8Size_pos
    have hle := length_le_byteSize rest
    rw [byteSize_cons, List.length_cons, List.forall_mem_cons, ← ih]
    omega

theorem byteSize_eq_length_dropWhile_iff : byteSize text = (text.dropWhile isBlank).length ↔
    (∀ c ∈ text, c.utf8Size = 1) ∧ ∀ c ∈ text.head?, isBlank c = false := by
  have hsuffix := List.dropWhile_suffix (l := text) isBlank
  have hbytes := length_le_byteSize text
  have hhead : text.dropWhile isBlank = text ↔ ∀ c ∈ text.head?, isBlank c = false := by
    cases text with
    | nil => simp
    | cons c rest => simp [List.dropWhile_eq_self_iff]
  rw [← byteSize_eq_length_iff, ← hhead]
  constructor
  · intro h
    have hlength := hsuffix.length_le
    exact ⟨by omega, hsuffix.eq_of_length (by omega)⟩
  · rintro ⟨hwide, hwhole⟩
    rw [hwhole, hwide]

theorem append_inj_of_byteSize {a b x y : List Char} (h : a ++ x = b ++ y)
    (hsize : byteSize a = byteSize b) : a = b ∧ x = y := by
  rcases List.append_eq_append_iff.1 h with ⟨more, rfl, rfl⟩ | ⟨more, rfl, rfl⟩
  all_goals
    rw [byteSize_append] at hsize
    have hmore : more = [] := by
      have := length_le_byteSize more
      exact List.length_eq_zero_iff.1 (by omega)
    subst hmore
    simp

/-! ## Runs that a character ends -/

theorem append_eq_append_cons {line more before behind : List Char}
    (h : line ++ more = before ++ c :: behind) : (∃ rest, line = before ++ c :: rest) ∨
      ∃ before', before = line ++ before' ∧ more = before' ++ c :: behind := by
  rcases List.append_eq_append_iff.1 h with ⟨before', hbefore, hmore⟩ | ⟨tail, hline, htail⟩
  · exact .inr ⟨before', hbefore, hmore⟩
  · cases tail with
    | nil => exact .inr ⟨[], by simpa using hline.symm, htail.symm⟩
    | cons c' rest =>
      obtain ⟨rfl, -⟩ := List.cons.inj htail
      exact .inl ⟨rest, hline⟩

theorem trimBlanks_append (h : isBlank c = false) :
    trimBlanks (text ++ c :: rest) = text.dropWhile isBlank ++ c :: rest.rdropWhile isBlank := by
  rw [trimBlanks, dropWhile_append_stop h, List.reverse_append, List.reverse_cons,
    List.append_assoc, List.singleton_append, dropWhile_append_stop h, List.rdropWhile]
  simp

end Text

/-! ## The line of a place -/

namespace Line

/-- The text has the line `before ++ c :: rest` under this number, and `offset` is where `c`
stands. -/
def Holds (text : List Char) (offset number : Nat) (before : List Char) (c : Char)
    (rest : List Char) : Prop :=
  ∃ above below, split text = above ++ (before ++ c :: rest) :: below ∧
    number = above.length + 1 ∧ offset = byteSize (above.flatten ++ before)

theorem Holds.at? {text : List Char} {offset number : Nat} {start rest : List Char} {c : Char}
    (h : Holds text offset number start c rest) :
    at? text offset = some ⟨number, start ++ c :: rest, byteSize start⟩ := by
  obtain ⟨above, below, hlines, rfl, rfl⟩ := h
  rw [byteSize_append]
  refine at?_inside hlines ?_
  have := c.utf8Size_pos
  rw [byteSize_append, byteSize_cons]
  omega

theorem exists_line {lines : List (List Char)} {before behind : List Char} {c : Char}
    (h : lines.flatten = before ++ c :: behind) : ∃ above start rest below,
      lines = above ++ (start ++ c :: rest) :: below ∧ before = above.flatten ++ start := by
  induction lines generalizing before with
  | nil => simp at h
  | cons line more ih =>
    rw [List.flatten_cons] at h
    rcases append_eq_append_cons h with ⟨rest, rfl⟩ | ⟨before, rfl, hmore⟩
    · exact ⟨[], before, rest, more, rfl, rfl⟩
    · obtain ⟨above, start, rest, below, rfl, rfl⟩ := ih hmore
      exact ⟨line :: above, start, rest, below, rfl, by simp⟩

theorem exists_holds {text before behind : List Char} {c : Char}
    (h : text = before ++ c :: behind) :
    ∃ number start rest, Holds text (byteSize before) number start c rest := by
  obtain ⟨above, start, rest, below, hlines, rfl⟩ := exists_line ((flatten_split text).trans h)
  exact ⟨_, start, rest, above, below, hlines, rfl, rfl⟩

theorem Holds.eq {text before behind : List Char} {number : Nat} {start rest : List Char}
    {c d : Char} (h : Holds text (byteSize before) number start c rest)
    (htext : text = before ++ d :: behind) : c = d := by
  obtain ⟨above, below, hlines, -, hoffset⟩ := h
  have hflatten := (flatten_split text).symm.trans (congrArg List.flatten hlines)
  have hsame : before ++ d :: behind =
      (above.flatten ++ start) ++ c :: (rest ++ below.flatten) := by
    rw [← htext, hflatten]
    simp
  obtain ⟨-, htail⟩ := append_inj_of_byteSize hsame hoffset
  exact (List.cons.inj htail).1.symm

end Line

/-! ## The report -/

namespace Diagnostic

theorem byteSize_takeWhile_isIndent (text : List Char) :
    byteSize (text.takeWhile isIndent) = (text.takeWhile isIndent).length := by
  refine byteSize_eq_length_iff.2 fun c hc => ?_
  have hindent := List.all_eq_true.1 (List.all_takeWhile (l := text)) c hc
  rcases (by simpa [isIndent] using hindent : c = ' ' ∨ c = '\t') with rfl | rfl <;> rfl

theorem isIndent_eq_false {c : Char} (h : isBlank c = false) : isIndent c = false := by
  rw [Bool.eq_false_iff]
  intro hindent
  rcases (by simpa [isIndent] using hindent : c = ' ' ∨ c = '\t') with rfl | rfl <;>
    exact absurd h (by decide)

variable {d : Diagnostic} {source : String} {number : Nat} {start rest : List Char} {c : Char}

theorem report_eq_page (h : Line.Holds source.toList d.position.offset number start c rest)
    (hc : isBlank c = false) :
    d.report source = d.page number
      ((start.dropWhile isIndent).dropWhile isBlank ++ c :: rest.rdropWhile isBlank)
      (byteSize (start.dropWhile isIndent)) := by
  have hindent := isIndent_eq_false hc
  have hlead : byteSize start - (start.takeWhile isIndent).length =
      byteSize (start.dropWhile isIndent) := by
    have hsplit := congrArg byteSize (List.takeWhile_append_dropWhile (p := isIndent) (l := start))
    rw [byteSize_append, byteSize_takeWhile_isIndent] at hsplit
    omega
  rw [report_of_at? h.at?]
  dsimp only
  rw [dropWhile_append_stop hindent, takeWhile_append_stop hindent, trimBlanks_append hc, hlead]

end Diagnostic

/-! ## What is reported -/

/-- The faults that are reported for a source: those that it is rejected for, and the one that ends
a run of it. -/
inductive Reported (source file : String) (d : Diagnostic) : Prop
  | rejected {faults} : checkSource source file = .error faults → d ∈ faults →
      Reported source file d
  | failed {p limit backend name output} : checkSource source file = .ok p →
      execute limit p backend name = .error ⟨output, .failed d⟩ → Reported source file d

theorem Token.solid_of_mem {source file : String} {tokens : List Token}
    (h : ofSource source file = .ok tokens) {t : Token} (ht : t ∈ tokens) :
    ∀ c ∈ t.text.toList, isBlank c = false := by
  rcases cut_of_scan h ht with hfinish | ⟨pattern, rest, hfirst, hkind⟩
  · have htext : t.text = "EOF" := congrArg Prod.snd hfinish
    have hall : "EOF".toList.all (!isBlank ·) = true := by decide
    intro c hc
    simpa using List.all_eq_true.1 hall c (htext ▸ hc)
  · obtain ⟨hp, hlexeme⟩ := of_first? hfirst
    exact (Pattern.matches_of_lexeme? hlexeme).solid hp (by rw [hkind]; rfl)

theorem Token.stuck_of_scan {file : String} {text : List Char} {skip offset : Nat} {d : Diagnostic}
    (h : scan file skip offset text = .error d) :
    ∃ c, d.cause = .unrecognisedToken (String.singleton c) ∧ isBlank c = false := by
  obtain ⟨c, rest, offset, hnone, rfl⟩ := scan_eq_error h
  refine ⟨c, rfl, Bool.eq_false_iff.2 fun hc => ?_⟩
  have hblanks := Option.map_eq_none_iff.1 (List.findSome?_eq_none_iff.1 hnone .blanks (by decide))
  simp [Pattern.lexeme?, Pattern.run?, hc] at hblanks

section Reports

variable {source file : String} {d : Diagnostic}

theorem Spot.solid {position : Position} (h : Spot source file position)
    (hin : position.offset < source.utf8ByteSize) :
    ∃ before c behind, source.toList = before ++ c :: behind ∧
      position = ⟨byteSize before, file⟩ ∧ isBlank c = false := by
  cases h with
  | @token tokens t htokens ht hcut =>
    obtain ⟨before, behind, hsource, hspan⟩ := hcut.slice
    obtain ⟨c, text, htext⟩ : ∃ c text, t.text.toList = c :: text :=
      List.exists_cons_of_ne_nil fun hnil => hcut.nonempty (String.toList_eq_nil_iff.1 hnil)
    refine ⟨before.toList, c, text ++ behind.toList, ?_, ?_, ?_⟩
    · simp [hsource, htext]
    · rw [hspan, byteSize_toList]
    · exact Token.solid_of_mem htokens ht c (htext ▸ List.mem_cons_self)
  | @stuck before c after hsource herror =>
    refine ⟨before.toList, c, after.toList, by simp [hsource], by rw [byteSize_toList], ?_⟩
    obtain ⟨c', hcause, hc'⟩ := Token.stuck_of_scan herror
    have hsame : String.singleton c = String.singleton c' := Cause.unrecognisedToken.inj hcause
    have hsame := congrArg String.toList hsame
    rw [String.toList_singleton, String.toList_singleton] at hsame
    rwa [List.singleton_inj.1 hsame]
  | finish => exact absurd hin (Nat.lt_irrefl _)

theorem Reported.spot (hsize : source.utf8ByteSize < 2 ^ 32) (h : Reported source file d) :
    Spot source file d.position := by
  cases h with
  | rejected hfaults hd =>
    rw [checkSource] at hfaults
    split at hfaults
    · rename_i hsource
      cases hfaults
      rw [List.mem_singleton.1 hd]
      exact (Program.spot_of_ofSource hsize hsource).2
    · rename_i p hp
      rw [CheckResult.accept] at hfaults
      split at hfaults
      · cases hfaults
      · cases hfaults
        exact (Program.check_reports (Program.placed_ofSource hsize hp) d hd).2
  | failed hp hfailed =>
    have hplaced := Program.placed_ofSource hsize (checkSource_eq_ok hp).1
    exact (CheckedProgram.execute_failed (checkSource_wellTyped hp) hplaced hfailed).2

/-- The report of a fault in front of the end shows the line of the place, with as many dashes as
there are bytes between its indentation and the place. The caret is below the character at the
place unless one of these bytes is not a character of its own, or a blank that is no indentation
comes first. -/
theorem Reported.caret (hsize : source.utf8ByteSize < 2 ^ 32) (h : Reported source file d)
    (hin : d.position.offset < source.utf8ByteSize) :
    (∃ number start c rest, Line.Holds source.toList d.position.offset number start c rest) ∧
    ∀ number start c rest, Line.Holds source.toList d.position.offset number start c rest →
      let gap := start.dropWhile Diagnostic.isIndent
      let left := gap.dropWhile isBlank
      d.report source = d.page number (left ++ c :: rest.rdropWhile isBlank) (byteSize gap) ∧
      (byteSize gap = left.length ↔
        (∀ b ∈ gap, b.utf8Size = 1) ∧ ∀ b ∈ gap.head?, isBlank b = false) := by
  obtain ⟨before, c, behind, hsource, hposition, hc⟩ := (h.spot hsize).solid hin
  have hoffset : d.position.offset = byteSize before := congrArg Position.offset hposition
  rw [hoffset]
  constructor
  · obtain ⟨number, start, rest, hholds⟩ := Line.exists_holds hsource
    exact ⟨number, start, c, rest, hholds⟩
  · intro number start c' rest hholds
    obtain rfl : c' = c := hholds.eq hsource
    exact ⟨Diagnostic.report_eq_page (hoffset ▸ hholds) hc, byteSize_eq_length_dropWhile_iff⟩

end Reports

/-- The place is on a line that is indented by a tabulator, and the caret is below it. -/
theorem exists_reported_caret : ∃ d, Reported "var x = 1;\n\tprint y;" "demo" d ∧
    d.report "var x = 1;\n\tprint y;" = d.page 2 ("print ".toList ++ 'y' :: [';']) 6 ∧
    6 = "print ".toList.length := by
  have hcheck : (checkSource "var x = 1;\n\tprint y;" "demo").map (fun _ => ()) =
      .error [⟨.undefinedName "y", ⟨18, "demo"⟩⟩] := by
    decide +kernel
  have h : Reported "var x = 1;\n\tprint y;" "demo" ⟨.undefinedName "y", ⟨18, "demo"⟩⟩ :=
    .rejected (map_eq_error.1 hcheck) List.mem_cons_self
  have hholds : Line.Holds "var x = 1;\n\tprint y;".toList 18 2 "\tprint ".toList 'y' [';'] :=
    ⟨["var x = 1;\n".toList], [], by decide, rfl, by decide⟩
  obtain ⟨hreport, hbelow⟩ := (Reported.caret (by decide) h (by decide)).2 _ _ _ _ hholds
  have hnarrow : "print ".toList.all (·.utf8Size == 1) = true := by decide
  refine ⟨_, h, hreport, hbelow.2 ⟨fun b hb => ?_, fun b hb => ?_⟩⟩
  · exact eq_of_beq (List.all_eq_true.1 hnarrow b hb)
  · cases hb
    decide

/-- Behind a wide letter in a comment, and behind a form feed in front of the line, the caret
stands past the character at the place. -/
theorem caret_past_character :
    (∃ d, Reported "/* é */ print y;" "demo" d ∧
      (Token.ofSource "/* é */ print y;" "demo").map (List.map (·.span.start.offset)) =
        .ok [9, 15, 16, 17] ∧
      Line.Holds "/* é */ print y;".toList d.position.offset 1 "/* é */ print ".toList 'y' [';'] ∧
      d.position.offset = 15 ∧
      d.report "/* é */ print y;" = d.page 1 ("/* é */ print ".toList ++ 'y' :: [';']) 15 ∧
      "/* é */ print ".toList.length = 14) ∧
    ∃ d, Reported "\x0cprint y;" "demo" d ∧
      (Token.ofSource "\x0cprint y;" "demo").map (List.map (·.span.start.offset)) =
        .ok [1, 7, 8, 9] ∧
      Line.Holds "\x0cprint y;".toList d.position.offset 1 "\x0cprint ".toList 'y' [';'] ∧
      d.position.offset = 7 ∧
      d.report "\x0cprint y;" = d.page 1 ("print ".toList ++ 'y' :: [';']) 7 ∧
      "print ".toList.length = 6 := by
  have hwide : (checkSource "/* é */ print y;" "demo").map (fun _ => ()) =
      .error [⟨.undefinedName "y", ⟨15, "demo"⟩⟩] := by
    decide +kernel
  have hfeed : (checkSource "\x0cprint y;" "demo").map (fun _ => ()) =
      .error [⟨.undefinedName "y", ⟨7, "demo"⟩⟩] := by
    decide +kernel
  refine ⟨⟨_, .rejected (map_eq_error.1 hwide) List.mem_cons_self, by decide +kernel,
    ⟨[], [], by decide, rfl, by decide⟩, rfl, by decide +kernel, by decide⟩,
    ⟨_, .rejected (map_eq_error.1 hfeed) List.mem_cons_self, by decide +kernel,
    ⟨[], [], by decide, rfl, by decide⟩, rfl, by decide +kernel, by decide⟩⟩

end Leveret
