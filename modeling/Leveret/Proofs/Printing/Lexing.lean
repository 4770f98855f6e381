import Leveret.Proofs.Doubles.Spelling
import Leveret.Proofs.Steps
import Leveret.Token.Lexer

/-!
# Cutting text into words

A word is a kind of token and its text. `Lexes` relates a text to its words without the places
they stand at, so that texts can be put together piece by piece. Each kind of lexeme is found
again when what follows it cannot be a part of it.
-/

namespace Leveret

open Text Pattern

abbrev Lexeme := Kind × String

def Token.lexeme (t : Token) : Lexeme := (t.kind, t.text)

/-- The text is cut into these words by the lexer. -/
inductive Lexes : List Char → List Lexeme → Prop where
  | nil : Lexes [] []
  | skip {pattern text rest words} : first? (text ++ rest) = some (pattern, text) →
      pattern.kind? text = none → Lexes rest words → Lexes (text ++ rest) words
  | word {pattern text rest kind words} : first? (text ++ rest) = some (pattern, text) →
      pattern.kind? text = some kind → Lexes rest words →
      Lexes (text ++ rest) ((kind, String.ofList text) :: words)

/-! ## The lexer -/

namespace Token

variable {file : String} {offset : Nat}

theorem scan_skip (text rest : List Char) (offset : Nat) :
    scan file text.length offset (text ++ rest) = scan file 0 (offset + byteSize text) rest := by
  induction text generalizing offset with
  | nil => rfl
  | cons c text ih =>
    rw [List.length_cons, List.cons_append, scan, ih, byteSize_cons, Nat.add_assoc]

theorem of_first? {input text : List Char} {pattern : Pattern}
    (h : first? input = some (pattern, text)) :
    pattern ∈ Pattern.all ∧ pattern.lexeme? input = some text := by
  obtain ⟨p, hp, hfound⟩ := List.exists_of_findSome?_eq_some h
  obtain ⟨text', htext, heq⟩ := Option.map_eq_some_iff.1 hfound
  cases heq
  exact ⟨hp, htext⟩

theorem scan_of_first? {pattern : Pattern} {text rest : List Char}
    (h : first? (text ++ rest) = some (pattern, text)) :
    scan file 0 offset (text ++ rest) = match pattern.kind? text with
      | none => scan file 0 (offset + byteSize text) rest
      | some kind => (scan file 0 (offset + byteSize text) rest).map
          (⟨kind, String.ofList text, .ofIndex offset (byteSize text) file⟩ :: ·) := by
  cases text with
  | nil => exact absurd rfl (lexeme?_ne_nil (of_first? h).1 (of_first? h).2)
  | cons c text =>
    have hmore : scan file ((c :: text).length - 1) (offset + c.utf8Size) (text ++ rest) =
        scan file 0 (offset + byteSize (c :: text)) rest := by
      rw [List.length_cons, Nat.add_sub_cancel, scan_skip, byteSize_cons, Nat.add_assoc]
    rw [List.cons_append] at h ⊢
    rw [scan, h]
    exact hmore ▸ rfl

theorem scan_eq_error {text : List Char} {skip : Nat} {d : Diagnostic}
    (h : scan file skip offset text = .error d) :
    ∃ c rest offset, first? (c :: rest) = none ∧
      d = ⟨.unrecognisedToken (String.singleton c), .ofIndex offset file⟩ := by
  induction text generalizing skip offset d with
  | nil =>
    rw [scan] at h
    cases h
  | cons c rest ih =>
    cases skip with
    | succ skip => exact ih h
    | zero =>
      rw [scan] at h
      split at h
      · rename_i hnone
        cases h
        exact ⟨c, rest, offset, hnone, rfl⟩
      · dsimp only at h
        split at h
        · exact ih h
        · exact ih (map_eq_error.1 h)

def finish : Lexeme := (.endOfFile, "EOF")

theorem exists_scan_of_lexes {text : List Char} {words : List Lexeme} (h : Lexes text words)
    (offset : Nat) : ∃ tokens eof, scan file 0 offset text = .ok (tokens ++ [eof]) ∧
      eof.lexeme = finish ∧ tokens.map lexeme = words := by
  induction h generalizing offset with
  | nil => exact ⟨[], _, rfl, rfl, rfl⟩
  | @skip pattern text rest words hfirst hkind _ ih =>
    obtain ⟨tokens, eof, hscan, heof, hwords⟩ := ih (offset + byteSize text)
    exact ⟨tokens, eof, by rw [scan_of_first? hfirst, hkind, hscan], heof, hwords⟩
  | @word pattern text rest kind words hfirst hkind _ ih =>
    obtain ⟨tokens, eof, hscan, heof, hwords⟩ := ih (offset + byteSize text)
    refine ⟨⟨kind, String.ofList text, .ofIndex offset (byteSize text) file⟩ :: tokens, eof, ?_,
      heof, ?_⟩
    · rw [scan_of_first? hfirst, hkind, hscan]
      rfl
    · rw [List.map_cons, hwords]
      rfl

theorem scan_of_lexes {text : List Char} {words : List Lexeme} (h : Lexes text words)
    (offset : Nat) : ∃ tokens eof, scan file 0 offset text = .ok (tokens ++ [eof]) ∧
      eof.kind = .endOfFile ∧ tokens.map lexeme = words := by
  obtain ⟨tokens, eof, hscan, heof, hwords⟩ := exists_scan_of_lexes h offset
  exact ⟨tokens, eof, hscan, congrArg Prod.fst heof, hwords⟩

/-- The tokens of a text are the words that it is cut into, and the end. -/
theorem lexes_of_scan {text : List Char} {tokens : List Token}
    (h : scan file 0 offset text = .ok tokens) :
    ∃ words, Lexes text words ∧ tokens.map lexeme = words ++ [finish] := by
  induction hlength : text.length using Nat.strongRecOn generalizing text offset tokens with
  | ind n ih =>
    cases text with
    | nil =>
      cases h
      exact ⟨[], .nil, rfl⟩
    | cons c text =>
      cases hfirst : first? (c :: text) with
      | none =>
        rw [scan, hfirst] at h
        cases h
      | some found =>
        obtain ⟨pattern, piece⟩ := found
        obtain ⟨hp, hlexeme⟩ := of_first? hfirst
        obtain ⟨rest, hsplit⟩ := lexeme?_isPrefix hlexeme
        rw [← hsplit] at h hfirst hlength ⊢
        have hshorter : rest.length < n := by
          have := List.length_pos_iff.2 (lexeme?_ne_nil hp hlexeme)
          rw [List.length_append] at hlength
          omega
        rw [scan_of_first? hfirst] at h
        cases hkind : pattern.kind? piece with
        | none =>
          rw [hkind] at h
          obtain ⟨words, hlexes, hwords⟩ := ih rest.length hshorter h rfl
          exact ⟨words, .skip hfirst hkind hlexes, hwords⟩
        | some kind =>
          rw [hkind] at h
          obtain ⟨more, hmore, rfl⟩ := map_eq_ok.1 h
          obtain ⟨words, hlexes, hwords⟩ := ih rest.length hshorter hmore rfl
          exact ⟨_ :: words, .word hfirst hkind hlexes, by rw [List.map_cons, hwords]; rfl⟩

end Token

/-- Some text is cut behind the word. -/
def Lexeme.Cut (word : Lexeme) : Prop := ∃ pattern rest,
  first? (word.2.toList ++ rest) = some (pattern, word.2.toList) ∧
  pattern.kind? word.2.toList = some word.1

theorem Lexes.cut {text : List Char} {words : List Lexeme} (h : Lexes text words) :
    ∀ word ∈ words, word.Cut := by
  induction h with
  | nil => nofun
  | skip _ _ _ ih => exact ih
  | @word pattern piece rest kind words hfirst hkind _ ih =>
    refine List.forall_mem_cons.2 ⟨⟨pattern, rest, ?_, ?_⟩, ih⟩
    · rwa [String.toList_ofList]
    · rwa [String.toList_ofList]

namespace Token

variable {file : String} {offset : Nat} {text : List Char} {tokens : List Token} {t : Token}

theorem cut_of_scan (h : scan file 0 offset text = .ok tokens) (ht : t ∈ tokens) :
    t.lexeme = finish ∨ t.lexeme.Cut := by
  obtain ⟨words, hlexes, hwords⟩ := lexes_of_scan h
  have hmem : t.lexeme ∈ words ++ [finish] := hwords ▸ List.mem_map_of_mem ht
  rcases List.mem_append.1 hmem with hword | hfinish
  · exact .inr (hlexes.cut _ hword)
  · exact .inl (List.mem_singleton.1 hfinish)

/-- Every token but the end comes from a pattern. -/
def Found (t : Token) : Prop :=
  t.kind = .endOfFile ∨ ∃ pattern ∈ Pattern.all, ∃ input,
    pattern.lexeme? input = some t.text.toList ∧ pattern.kind? t.text.toList = some t.kind

theorem found_of_scan (h : scan file 0 offset text = .ok tokens) : ∀ t ∈ tokens, t.Found := by
  intro t ht
  rcases cut_of_scan h ht with hfinish | ⟨pattern, rest, hfirst, hkind⟩
  · exact .inl (congrArg Prod.fst hfinish)
  · obtain ⟨hp, hlexeme⟩ := of_first? hfirst
    exact .inr ⟨pattern, hp, _, hlexeme, hkind⟩

end Token

/-! ## Names and numbers -/

def isWord : List Char → Bool
  | [] => false
  | c :: rest => isWordStart c && rest.all isWordPart

structure Identifier (name : String) : Prop where
  word : isWord name.toList = true
  free : Kind.ofWord? name = none

theorem mark_kind {kind : Kind} {text : List Char} (h : Pattern.mark kind text ∈ Pattern.all) :
    kind ≠ .identifier ∧ kind ≠ .integer ∧ kind ≠ .float := by
  have hall : ∀ p ∈ Pattern.all, ∀ k ∈ p.kind? [], p ≠ .word → p ≠ .decimal → p ≠ .digits →
      k ≠ .identifier ∧ k ≠ .integer ∧ k ≠ .float := by decide
  exact hall _ h kind rfl nofun nofun nofun

theorem mem_reserved {word : String} {kind : Kind} (h : Kind.ofWord? word = some kind) :
    (word, kind) ∈ Kind.reserved := by
  obtain ⟨before, after, hreserved, -⟩ := List.lookup_eq_some_iff.1 h
  exact hreserved ▸ List.mem_append_right _ List.mem_cons_self

theorem ofWord?_kind {word : String} {kind : Kind} (h : Kind.ofWord? word = some kind) :
    kind ≠ .identifier ∧ kind ≠ .integer ∧ kind ≠ .float := by
  have hall : ∀ entry ∈ Kind.reserved,
      entry.2 ≠ .identifier ∧ entry.2 ≠ .integer ∧ entry.2 ≠ .float := by decide
  exact hall (word, kind) (mem_reserved h)

theorem isWord_of_word? {input text : List Char} (h : word? input = some text) :
    isWord text = true := by
  unfold word? at h
  split at h
  · cases h
  · split at h
    · rename_i hstart
      rw [← Option.some.inj h, isWord, hstart, List.all_takeWhile]
      rfl
    · cases h

theorem all_of_run? {p : Char → Bool} {input text : List Char} (h : run? p input = some text) :
    ∀ c ∈ text, p c = true := by
  unfold run? at h
  split at h
  · cases h
  · rw [← Option.some.inj h]
    exact List.all_eq_true.1 List.all_takeWhile

theorem pointed_of_decimal? {input text : List Char} (h : decimal? input = some text) :
    ∃ d, Pointed text d := by
  unfold decimal? at h
  dsimp only at h
  split at h
  · split at h
    · cases h
    · rename_i hne
      rw [← Option.some.inj h]
      exact ⟨_, .mk (List.all_eq_true.1 List.all_takeWhile)
        (List.all_eq_true.1 List.all_takeWhile) hne⟩
  · cases h

namespace Token

variable {t : Token}

theorem Found.own (h : t.Found) : ∃ input,
    (t.kind = .identifier → word? input = some t.text.toList ∧ Kind.ofWord? t.text = none) ∧
    (t.kind = .integer → run? Char.isDigit input = some t.text.toList) ∧
    (t.kind = .float → decimal? input = some t.text.toList) := by
  rcases h with h | ⟨pattern, hp, input, hlexeme, hkind⟩
  · rw [h]
    exact ⟨[], nofun, nofun, nofun⟩
  · refine ⟨input, ?_⟩
    cases pattern with
    | blanks | lineComment | blockComment => cases hkind
    | mark kind text =>
      obtain ⟨hname, hinteger, hfloat⟩ := mark_kind hp
      rw [← Option.some.inj hkind]
      exact ⟨fun h => absurd h hname, fun h => absurd h hinteger, fun h => absurd h hfloat⟩
    | digits =>
      rw [← Option.some.inj hkind]
      exact ⟨nofun, fun _ => hlexeme, nofun⟩
    | decimal =>
      rw [← Option.some.inj hkind]
      exact ⟨nofun, nofun, fun _ => hlexeme⟩
    | word =>
      change some ((Kind.ofWord? (String.ofList t.text.toList)).getD .identifier) = _ at hkind
      rw [String.ofList_toList] at hkind
      rw [← Option.some.inj hkind]
      cases hword : Kind.ofWord? t.text with
      | none => exact ⟨fun _ => ⟨hlexeme, rfl⟩, nofun, nofun⟩
      | some kind =>
        obtain ⟨hname, hinteger, hfloat⟩ := ofWord?_kind hword
        exact ⟨fun h => absurd h hname, fun h => absurd h hinteger, fun h => absurd h hfloat⟩

theorem Found.identifier (h : t.Found) (hk : t.kind = .identifier) : Identifier t.text := by
  obtain ⟨input, hname, -, -⟩ := h.own
  exact ⟨isWord_of_word? (hname hk).1, (hname hk).2⟩

theorem Found.integer (h : t.Found) (hk : t.kind = .integer) : Digits t.text.toList := by
  obtain ⟨input, -, hinteger, -⟩ := h.own
  exact ⟨run?_ne_nil (hinteger hk), all_of_run? (hinteger hk)⟩

theorem Found.float (h : t.Found) (hk : t.kind = .float) : ∃ d, Pointed t.text.toList d := by
  obtain ⟨input, -, -, hfloat⟩ := h.own
  exact pointed_of_decimal? (hfloat hk)

end Token

/-! ## Putting text together -/

theorem isBlank_eq_false {c : Char} (hlow : 0x20 < c.toNat) (hhigh : c.toNat < 0x85) :
    isBlank c = false := by
  simp [isBlank, Text.blanks, Ranges.contains]
  omega

theorem toNat_of_isDigit {c : Char} (h : c.isDigit = true) : 48 ≤ c.toNat ∧ c.toNat ≤ 57 := by
  simpa [Char.isDigit, UInt32.le_iff_toNat_le] using h

theorem toNat_of_isWordStart {c : Char} (h : isWordStart c = true) :
    65 ≤ c.toNat ∧ c.toNat ≤ 122 := by
  rcases Bool.or_eq_true_iff.1 h with halpha | hline
  · rcases Bool.or_eq_true_iff.1 halpha with hupper | hlower
    · obtain ⟨hlow, hhigh⟩ : 'A'.val ≤ c.val ∧ c.val ≤ 'Z'.val := of_decide_eq_true hupper
      rw [UInt32.le_iff_toNat_le] at hlow hhigh
      exact ⟨hlow, Nat.le_trans hhigh (by decide)⟩
    · obtain ⟨hlow, hhigh⟩ := Bool.and_eq_true_iff.1 hlower
      have hlow : 'a'.val ≤ c.val := of_decide_eq_true hlow
      have hhigh : c.val ≤ 'z'.val := of_decide_eq_true hhigh
      rw [UInt32.le_iff_toNat_le] at hlow hhigh
      exact ⟨Nat.le_trans (by decide) hlow, hhigh⟩
  · rw [of_decide_eq_true hline]
    decide

theorem isWordStart_of_isDigit {c : Char} (h : c.isDigit = true) : isWordStart c = false := by
  rw [Bool.eq_false_iff]
  intro hword
  have := toNat_of_isDigit h
  have := toNat_of_isWordStart hword
  omega

section Lexes

variable {rest : List Char} {words : List Lexeme}

theorem first?_blank {c : Char} (hc : isBlank c = true) (rest : List Char) :
    first? (c :: rest) = some (.blanks, c :: rest.takeWhile isBlank) := by
  simp [first?, Pattern.all, lexeme?, run?, hc]

theorem Lexes.dropWhile (h : Lexes rest words) : Lexes (rest.dropWhile isBlank) words := by
  cases rest with
  | nil => exact h
  | cons c rest =>
    rw [List.dropWhile_cons]
    split
    · rename_i hc
      have hfirst := first?_blank hc rest
      have hsplit := List.takeWhile_append_dropWhile (p := isBlank) (l := rest)
      generalize hinput : c :: rest = input at h hfirst
      cases h with
      | nil => cases hinput
      | @skip pattern text after _ hfirst' _ hafter =>
        rw [hfirst] at hfirst'
        obtain ⟨rfl, rfl⟩ := Prod.mk.inj (Option.some.inj hfirst')
        have hafter' : rest.takeWhile isBlank ++ rest.dropWhile isBlank =
            rest.takeWhile isBlank ++ after := hsplit.trans (List.cons.inj hinput).2
        rwa [List.append_cancel_left hafter']
      | word hfirst' hkind _ =>
        rw [hfirst] at hfirst'
        obtain ⟨rfl, rfl⟩ := Prod.mk.inj (Option.some.inj hfirst')
        cases hkind
    · exact h

theorem Lexes.blank {c : Char} (hc : isBlank c = true) (h : Lexes rest words) :
    Lexes (c :: rest) words := by
  have hsplit : c :: rest.takeWhile isBlank ++ rest.dropWhile isBlank = c :: rest := by
    rw [List.cons_append, List.takeWhile_append_dropWhile]
  have hfirst := first?_blank hc rest
  rw [← hsplit] at hfirst ⊢
  exact .skip hfirst rfl h.dropWhile

theorem Lexes.blanks {text : List Char} (ht : ∀ c ∈ text, isBlank c = true)
    (h : Lexes rest words) : Lexes (text ++ rest) words := by
  induction text with
  | nil => exact h
  | cons c text ih =>
    exact (ih fun c' hc' => ht c' (List.mem_cons_of_mem c hc')).blank (ht c List.mem_cons_self)

theorem Lexes.mark {kind : Kind} {t : String}
    (hfirst : first? (t.toList ++ rest) = some (.mark kind t.toList, t.toList))
    (h : Lexes rest words) : Lexes (t.toList ++ rest) ((kind, t) :: words) := by
  have hmark := Lexes.word hfirst rfl h
  rwa [String.ofList_toList] at hmark

theorem first?_solid {c : Char} {input : List Char} (hc : input.head? = some c)
    (hlow : 0x20 < c.toNat) (hhigh : c.toNat < 0x85) (hslash : c ≠ '/') :
    first? input = (([Pattern.word, .decimal, .digits] ++ marks).findSome?
      fun pattern => (pattern.lexeme? input).map (pattern, ·)) := by
  obtain ⟨rest, rfl⟩ := List.head?_eq_some_iff.1 hc
  have hb := isBlank_eq_false hlow hhigh
  have hblank : run? isBlank (c :: rest) = none := by simp [run?, hb]
  have hline : lineComment? (c :: rest) = none := by simp [lineComment?, hslash]
  have hblock : blockComment? (c :: rest) = none := by simp [blockComment?, hslash]
  unfold first? Pattern.all
  simp only [List.cons_append, List.nil_append, List.findSome?_cons, lexeme?, hblank, hline,
    hblock, Option.map_none]

theorem first?_number {input : List Char}
    (h : ∃ c, input.head? = some c ∧ (c.isDigit = true ∨ c = '.')) :
    first? input = (([Pattern.decimal, .digits] ++ marks).findSome?
      fun pattern => (pattern.lexeme? input).map (pattern, ·)) := by
  obtain ⟨c, hc, h⟩ := h
  have hrange : 0x20 < c.toNat ∧ c.toNat < 0x85 ∧ c ≠ '/' ∧ isWordStart c = false := by
    rcases h with h | rfl
    · obtain ⟨hlow, hhigh⟩ := toNat_of_isDigit h
      exact ⟨by omega, by omega, by rintro rfl; exact absurd hlow (by decide),
        isWordStart_of_isDigit h⟩
    · decide
  obtain ⟨hlow, hhigh, hslash, hstart⟩ := hrange
  rw [first?_solid hc hlow hhigh hslash]
  obtain ⟨rest, rfl⟩ := List.head?_eq_some_iff.1 hc
  have hword : word? (c :: rest) = none := by simp [word?, hstart]
  simp only [List.cons_append, List.nil_append, List.findSome?_cons, lexeme?, hword,
    Option.map_none]

theorem Lexes.ofWord {name : String} (hname : isWord name.toList = true)
    (hrest : ∀ c ∈ rest.head?, isWordPart c = false) (h : Lexes rest words) :
    Lexes (name.toList ++ rest) (((Kind.ofWord? name).getD .identifier, name) :: words) := by
  have hfirst : first? (name.toList ++ rest) = some (.word, name.toList) := by
    cases hchars : name.toList with
    | nil =>
      rw [hchars] at hname
      cases hname
    | cons c cs =>
      rw [hchars, isWord, Bool.and_eq_true, List.all_eq_true] at hname
      obtain ⟨hlow, hhigh⟩ := toNat_of_isWordStart hname.1
      have hslash : c ≠ '/' := by
        rintro rfl
        exact absurd hlow (by decide)
      rw [first?_solid rfl (by omega) (by omega) hslash]
      simp [lexeme?, word?, hname.1, takeWhile_of_break hname.2 hrest]
  have hword := Lexes.word hfirst rfl h
  rwa [String.ofList_toList] at hword

theorem Identifier.lexes {name : String} (hn : Identifier name)
    (hrest : ∀ c ∈ rest.head?, isWordPart c = false) (h : Lexes rest words) :
    Lexes (name.toList ++ rest) ((.identifier, name) :: words) := by
  have hlexes := h.ofWord hn.word hrest
  rwa [hn.free] at hlexes

theorem Lexes.reserved {word : String} {kind : Kind} (hk : Kind.ofWord? word = some kind)
    (hrest : ∀ c ∈ rest.head?, isWordPart c = false) (h : Lexes rest words) :
    Lexes (word.toList ++ rest) ((kind, word) :: words) := by
  have hall : ∀ entry ∈ Kind.reserved, isWord entry.1.toList = true := by decide
  have hlexes := h.ofWord (hall (word, kind) (mem_reserved hk)) hrest
  rwa [hk] at hlexes

theorem Lexes.integer {text : List Char} (ht : Digits text)
    (hrest : ∀ c ∈ rest.head?, c.isDigit = false ∧ c ≠ '.') (h : Lexes rest words) :
    Lexes (text ++ rest) ((.integer, String.ofList text) :: words) := by
  have hnodigit : ∀ c ∈ rest.head?, c.isDigit = false := fun c hc => (hrest c hc).1
  have hdecimal : decimal? (text ++ rest) = none := by
    unfold decimal?
    rw [dropWhile_of_break ht.digit hnodigit]
    cases rest with
    | nil => rfl
    | cons c rest =>
      split
      · rename_i heq
        cases heq
        exact absurd rfl (hrest '.' rfl).2
      · rfl
  have hrun : run? Char.isDigit (text ++ rest) = some text := by
    unfold run?
    rw [takeWhile_of_break ht.digit hnodigit]
    split
    · exact absurd rfl ht.ne_nil
    · rfl
  have hfirst : first? (text ++ rest) = some (.digits, text) := by
    have hhead : ∃ c, (text ++ rest).head? = some c ∧ (c.isDigit = true ∨ c = '.') := by
      cases text with
      | nil => exact absurd rfl ht.ne_nil
      | cons c cs => exact ⟨c, rfl, .inl (ht.digit c List.mem_cons_self)⟩
    rw [first?_number hhead]
    simp only [List.cons_append, List.nil_append, List.findSome?_cons, lexeme?, hdecimal, hrun,
      Option.map_none, Option.map_some]
  exact .word hfirst rfl h

theorem Lexes.float {text : List Char} {d : Decimal} (ht : Pointed text d)
    (hrest : ∀ c ∈ rest.head?, c.isDigit = false) (h : Lexes rest words) :
    Lexes (text ++ rest) ((.float, String.ofList text) :: words) := by
  obtain @⟨whole, fraction, hw, hf, hne⟩ := ht
  have hpoint : ∀ c ∈ ('.' :: (fraction ++ rest)).head?, c.isDigit = false := by simp
  have hdecimal : decimal? (whole ++ '.' :: fraction ++ rest) =
      some (whole ++ '.' :: fraction) := by
    unfold decimal?
    simp only [List.append_assoc, List.cons_append, dropWhile_of_break hw hpoint,
      takeWhile_of_break hw hpoint, takeWhile_of_break hf hrest, if_neg hne]
  have hfirst : first? (whole ++ '.' :: fraction ++ rest) =
      some (.decimal, whole ++ '.' :: fraction) := by
    have hhead : ∃ c, (whole ++ '.' :: fraction ++ rest).head? = some c ∧
        (c.isDigit = true ∨ c = '.') := by
      cases whole with
      | nil => exact ⟨'.', rfl, .inr rfl⟩
      | cons c whole => exact ⟨c, rfl, .inl (hw c List.mem_cons_self)⟩
    rw [first?_number hhead]
    simp only [List.cons_append, List.nil_append, List.findSome?_cons, lexeme?, hdecimal,
      Option.map_some]
  exact .word hfirst rfl h

end Lexes

end Leveret
