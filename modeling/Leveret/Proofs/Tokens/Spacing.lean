import Leveret.Proofs.Tokens.Lossless

/-!
# Tokens keep apart

No token has a blank in it, so a token is found again wherever a blank or the end comes behind it.
The texts of the tokens of a source, written in a row with any blanks between them, have the same
tokens again.
-/

namespace Leveret

open Text Pattern

/-! ## Blanks and tokens -/

namespace Pattern

variable {p : Pattern} {text rest : List Char} {kind : Kind}

theorem isBlank_of_isDigit {c : Char} (h : c.isDigit = true) : isBlank c = false := by
  obtain ⟨hlow, hhigh⟩ := toNat_of_isDigit h
  exact isBlank_eq_false (by omega) (by omega)

theorem isBlank_of_isWordStart {c : Char} (h : isWordStart c = true) : isBlank c = false := by
  obtain ⟨hlow, hhigh⟩ := toNat_of_isWordStart h
  exact isBlank_eq_false (by omega) (by omega)

theorem isBlank_of_isWordPart {c : Char} (h : isWordPart c = true) : isBlank c = false := by
  by_cases hdigit : c.isDigit = true
  · exact isBlank_of_isDigit hdigit
  · refine isBlank_of_isWordStart ?_
    simpa [isWordStart, isWordPart, Char.isAlphanum, hdigit] using h

def fixed : Pattern → List Char
  | mark _ text => text
  | _ => []

theorem isSome_kind? (p : Pattern) (text text' : List Char) :
    (p.kind? text).isSome = (p.kind? text').isSome := by
  cases p <;> rfl

theorem Matches.solid (h : p.Matches text) (hp : p ∈ all) (hkind : (p.kind? text).isSome = true) :
    ∀ c ∈ text, isBlank c = false := by
  cases h with
  | blanks | lineComment | blockComment => cases hkind
  | word hstart hpart =>
    refine List.forall_mem_cons.2 ⟨isBlank_of_isWordStart hstart, fun c hc => ?_⟩
    exact isBlank_of_isWordPart (hpart c hc)
  | decimal hw hf _ =>
    refine List.forall_mem_append.2 ⟨fun c hc => isBlank_of_isDigit (hw c hc), ?_⟩
    exact List.forall_mem_cons.2 ⟨by decide, fun c hc => isBlank_of_isDigit (hf c hc)⟩
  | digits _ hall => exact fun c hc => isBlank_of_isDigit (hall c hc)
  | @mark kind text =>
    have hall : ∀ p ∈ all, p.fixed.all (!isBlank ·) = true := by decide
    intro c hc
    simpa using List.all_eq_true.1 (hall _ hp) c hc

theorem Matches.slash (h : p.Matches ('/' :: text)) (hp : p ∈ all)
    (hkind : p.kind? ('/' :: text) = some kind) : text = [] := by
  have hbegins := h.begins
  cases p with
  | blanks | lineComment | blockComment => cases hkind
  | word | decimal | digits => exact absurd hbegins (by decide)
  | mark kind text' =>
    have hall : ∀ p ∈ all, p.fixed.head? = some '/' → p.fixed = ['/'] := by decide
    cases h
    exact (List.cons.inj (hall _ hp rfl)).2

theorem prefix_of_solid {text' : List Char} (h : text' <+: text ++ rest)
    (hsolid : ∀ c ∈ text', isBlank c = false) (hrest : ∀ c ∈ rest.head?, isBlank c = true) :
    text' <+: text := by
  rcases List.prefix_or_prefix_of_prefix h (List.prefix_append text rest) with hin | hout
  · exact hin
  · obtain ⟨more, rfl⟩ := hout
    cases more with
    | nil => simp
    | cons c more =>
      obtain ⟨rest', hrest'⟩ := (List.prefix_append_right_inj text).1 h
      have hblank : isBlank c = true := hrest c (by simp [← hrest'])
      rw [hsolid c (by simp)] at hblank
      cases hblank

theorem not_opening {c : Char} {body : List Char} (hc : isBlank c = false)
    (hown : p.Matches text) (hp : p ∈ all) (hkind : p.kind? text = some kind)
    (hrest : ∀ c ∈ rest.head?, isBlank c = true) : ¬ '/' :: c :: body <+: text ++ rest := by
  intro h
  cases text with
  | nil => exact hown.ne_nil hp rfl
  | cons d text =>
    obtain ⟨rfl, hsecond⟩ := List.cons_prefix_cons.1 h
    obtain rfl := hown.slash hp hkind
    obtain ⟨rest', rfl⟩ := hsecond
    rw [hrest c rfl] at hc
    cases hc

theorem Applies.of_spaced {q : Pattern} (h : q.Applies (text ++ rest)) (hq : q ∈ all)
    (hown : p.Matches text) (hp : p ∈ all) (hkind : p.kind? text = some kind)
    (hrest : ∀ c ∈ rest.head?, isBlank c = true) (more : List Char) :
    q.Applies (text ++ more) := by
  obtain ⟨text', hprefix, hmatch⟩ := h
  have hinside (hsolid : ∀ c ∈ text', isBlank c = false) : q.Applies (text ++ more) :=
    ⟨text', (prefix_of_solid hprefix hsolid hrest).trans (List.prefix_append text more), hmatch⟩
  cases q with
  | word | decimal | digits | mark =>
    exact hinside (hmatch.solid hq rfl)
  | blanks =>
    -- the token would begin with a blank
    obtain ⟨c, text, rfl⟩ := List.exists_cons_of_ne_nil (hown.ne_nil hp)
    obtain ⟨c', text', rfl⟩ := List.exists_cons_of_ne_nil (hmatch.ne_nil hq)
    obtain ⟨rfl, -⟩ := List.cons_prefix_cons.1 hprefix
    have hblank : isBlank c' = true := hmatch.begins
    rw [hown.solid hp (by rw [hkind]; rfl) c' List.mem_cons_self] at hblank
    cases hblank
  | lineComment =>
    cases hmatch
    exact absurd hprefix (not_opening (by decide) hown hp hkind hrest)
  | blockComment =>
    cases hmatch
    exact absurd hprefix (not_opening (by decide) hown hp hkind hrest)

/-- A token that was cut off somewhere is cut off in front of every blank, and at the end. -/
theorem first?_spaced {more : List Char} (h : first? (text ++ more) = some (p, text))
    (hkind : p.kind? text = some kind) (hrest : ∀ c ∈ rest.head?, isBlank c = true) :
    first? (text ++ rest) = some (p, text) := by
  obtain ⟨hp, -⟩ := Token.of_first? h
  have htakes := takes_of_first? h hkind
  have hown := htakes.belongs
  obtain ⟨before, behind, hall, hbefore⟩ := htakes.first
  refine List.findSome?_eq_some_iff.2 ⟨before, p, behind, hall, ?_, fun q hq => ?_⟩
  · obtain ⟨found, hfound, hlength⟩ := hown.exists_lexeme? rest
    have hmatch := matches_of_lexeme? hfound
    have hsolid := hmatch.solid hp (by rw [isSome_kind? p found text, hkind]; rfl)
    have hprefix := prefix_of_solid (lexeme?_isPrefix hfound) hsolid hrest
    have heq : found = text := hprefix.eq_of_length_le (hlength (by rintro rfl; cases hkind))
    rw [hfound, heq]
    rfl
  · have hq' : q ∈ all := by simp [hall, hq]
    have hnone : ¬ q.Applies (text ++ rest) := fun happlies =>
      hbefore q hq (happlies.of_spaced hq' hown hp hkind hrest more)
    rw [lexeme?_eq_none.2 hnone]
    rfl

end Pattern

/-! ## Texts in a row -/

def spread : List String → List (List Char) → List Char
  | text :: texts, gap :: gaps => text.toList ++ (gap ++ spread texts gaps)
  | _, _ => []

/-- Gaps behind so many texts: blanks, of which only those behind the last text may be missing. -/
structure Gaps (count : Nat) (gaps : List (List Char)) : Prop where
  length_eq : gaps.length = count
  blank : ∀ gap ∈ gaps, ∀ c ∈ gap, isBlank c = true
  ne_nil : ∀ gap ∈ gaps.dropLast, gap ≠ []

theorem Gaps.tail {count : Nat} {gap : List Char} {gaps : List (List Char)}
    (h : Gaps (count + 1) (gap :: gaps)) : Gaps count gaps := by
  refine ⟨Nat.succ.inj h.length_eq, fun g hg => h.blank g (List.mem_cons_of_mem gap hg), ?_⟩
  intro g hg
  cases gaps with
  | nil => cases hg
  | cons gap' gaps => exact h.ne_nil g (List.mem_cons_of_mem gap hg)

theorem Gaps.head {count : Nat} {gap : List Char} {gaps : List (List Char)} {texts : List String}
    (h : Gaps (count + 1) (gap :: gaps)) :
    ∀ c ∈ (gap ++ spread texts gaps).head?, isBlank c = true := by
  intro c hc
  cases gap with
  | cons d gap =>
    rw [← Option.some.inj hc]
    exact h.blank _ List.mem_cons_self d List.mem_cons_self
  | nil =>
    cases gaps with
    | nil =>
      cases texts <;> cases hc
    | cons gap' gaps => exact absurd rfl (h.ne_nil [] List.mem_cons_self)

theorem lexes_spread {words : List Lexeme} (hwords : ∀ word ∈ words, word.Cut) :
    ∀ {gaps : List (List Char)}, Gaps words.length gaps →
      Lexes (spread (words.map Prod.snd) gaps) words := by
  induction words with
  | nil =>
    intro gaps _
    exact .nil
  | cons word words ih =>
    intro gaps hgaps
    obtain ⟨⟨p, more, hfirst, hkind⟩, hwords⟩ := List.forall_mem_cons.1 hwords
    cases gaps with
    | nil => cases hgaps.length_eq
    | cons gap gaps =>
      have hrest := (ih hwords hgaps.tail).blanks (hgaps.blank gap List.mem_cons_self)
      have hword := Lexes.word (first?_spaced hfirst hkind hgaps.head) hkind hrest
      rw [String.ofList_toList] at hword
      exact hword

/-! ## Sources in a row -/

/-- The texts of the tokens of a source in a row, with blanks around them and at least one between
two of them, have the same tokens. -/
theorem Token.ofSource_spread {source file : String} {words : List Token} {eof : Token}
    (h : ofSource source file = .ok (words ++ [eof])) {lead : List Char}
    (hlead : ∀ c ∈ lead, isBlank c = true) {gaps : List (List Char)}
    (hgaps : Gaps words.length gaps) (file' : String) : ∃ words' eof',
      ofSource (String.ofList (lead ++ spread (words.map Token.text) gaps)) file' =
        .ok (words' ++ [eof']) ∧
      words'.map lexeme = words.map lexeme ∧
      eof.kind = .endOfFile ∧ eof'.lexeme = eof.lexeme := by
  obtain ⟨lexemes, hlexes, heq⟩ := lexes_of_scan h
  rw [List.map_append] at heq
  obtain ⟨rfl, heof⟩ := List.append_inj' heq rfl
  have hfinish : eof.lexeme = finish := List.singleton_inj.1 heof
  rw [← List.length_map (f := lexeme)] at hgaps
  have htext : (words.map lexeme).map Prod.snd = words.map Token.text := by
    rw [List.map_map]
    rfl
  have hspread := (lexes_spread hlexes.cut hgaps).blanks hlead
  rw [htext] at hspread
  obtain ⟨words', eof', htokens, heof', hwords'⟩ := exists_scan_of_lexes hspread 0
  refine ⟨words', eof', ?_, hwords', congrArg Prod.fst hfinish, heof'.trans hfinish.symm⟩
  rw [ofSource, String.toList_ofList]
  exact htokens

/-- Marks that would grow together, a slash that would open a comment and a point that would end
a number, with blanks of several kinds between them. -/
theorem Token.exists_ofSource_spread : ∃ words eof words' eof',
    ofSource "a= =1./ *.5//" "demo" = .ok (words ++ [eof]) ∧
    words.map Token.text = ["a", "=", "=", "1.", "/", "*", ".5"] ∧
    ofSource "\ta\n=\u00a0=\u30001. / \n* .5" "demo" = .ok (words' ++ [eof']) ∧
    words'.map lexeme = words.map lexeme ∧ eof'.lexeme = eof.lexeme := by
  have hsource : (ofSource "a= =1./ *.5//" "demo").map (List.map Token.text) =
      .ok (["a", "=", "=", "1.", "/", "*", ".5"] ++ ["EOF"]) := by decide +kernel
  obtain ⟨tokens, htokens, hmap⟩ := map_eq_ok.1 hsource
  obtain ⟨words, last, rfl, hwords, hlast⟩ := List.map_eq_append_iff.1 hmap
  obtain ⟨eof, rfl, -⟩ := List.map_eq_singleton_iff.1 hlast
  let gaps : List (List Char) := [['\n'], ['\u00a0'], ['\u3000'], [' '], [' ', '\n'], [' '], []]
  have hgaps : Gaps words.length gaps := by
    have hlength : words.length = 7 := by
      rw [← List.length_map (f := Token.text), hwords]
      rfl
    have hblank : gaps.all (·.all isBlank) = true := by decide
    rw [hlength]
    exact ⟨rfl, fun gap hgap => List.all_eq_true.1 (List.all_eq_true.1 hblank gap hgap), by decide⟩
  have hlead : ∀ c ∈ ['\t'], isBlank c = true :=
    List.forall_mem_singleton.2 (by decide)
  obtain ⟨words', eof', hspread, hlexemes, -, heof⟩ :=
    Token.ofSource_spread htokens hlead hgaps "demo"
  have htext : String.ofList (['\t'] ++ spread (words.map Token.text) gaps) =
      "\ta\n=\u00a0=\u30001. / \n* .5" := by
    rw [hwords]
    decide
  rw [htext] at hspread
  exact ⟨words, eof, words', eof', htokens, hwords, hspread, hlexemes, heof⟩

end Leveret
