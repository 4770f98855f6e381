import Leveret.Proofs.Printing.Lexing

/-!
# What patterns match

The texts that belong to a pattern, said without a way to find them. A pattern finds its lexeme
where one of its texts stands, and apart from a block comment, which ends as soon as it can, it
finds the longest. Of the patterns that find a token the first one finds the longest text that any
of them has there, because those that share a beginning stand in the right order.
-/

namespace Leveret

open Text

namespace Pattern

/-- The texts that belong to a pattern. -/
inductive Matches : Pattern → List Char → Prop
  | blanks {text} : text ≠ [] → (∀ c ∈ text, isBlank c = true) → Matches .blanks text
  | lineComment {body} : '\n' ∉ body → Matches .lineComment ('/' :: '/' :: body)
  | blockComment {body} : Matches .blockComment ('/' :: '*' :: (body ++ ['*', '/']))
  | word {c text} : isWordStart c = true → (∀ d ∈ text, isWordPart d = true) →
      Matches .word (c :: text)
  | decimal {whole fraction} : (∀ c ∈ whole, c.isDigit = true) →
      (∀ c ∈ fraction, c.isDigit = true) → ¬ (whole = [] ∧ fraction = []) →
      Matches .decimal (whole ++ '.' :: fraction)
  | digits {text} : text ≠ [] → (∀ c ∈ text, c.isDigit = true) → Matches .digits text
  | mark {kind text} : Matches (.mark kind text) text

def Applies (p : Pattern) (input : List Char) : Prop := ∃ text, text <+: input ∧ p.Matches text

/-! ## Lexemes belong to their pattern -/

theorem ne_newline_of_mem_takeWhile {text : List Char} :
    '\n' ∉ text.takeWhile (· ≠ '\n') := by
  intro h
  have hne := List.all_eq_true.1 (List.all_takeWhile (l := text) (p := (· ≠ '\n'))) _ h
  simp at hne

theorem throughClose?_eq_some {input text : List Char} (h : throughClose? input = some text) :
    ∃ body, text = body ++ ['*', '/'] ∧ ¬ ['*', '/'] <:+: body ++ ['*'] := by
  fun_induction throughClose? input generalizing text with
  | case1 => simp at h
  | case2 rest =>
    refine ⟨[], (Option.some.inj h).symm, ?_⟩
    decide
  | case3 c rest hopen ih =>
    obtain ⟨tail, htail, rfl⟩ := Option.map_eq_some_iff.1 h
    obtain ⟨body, rfl, hbody⟩ := ih htail
    refine ⟨c :: body, rfl, fun hin => ?_⟩
    rw [List.cons_append, List.infix_cons_iff] at hin
    rcases hin with hstart | hin
    · -- the input itself would start with a close
      obtain ⟨rest', hrest⟩ := throughClose?_isPrefix htail
      cases body with
      | nil => simp at hstart
      | cons d body =>
        rw [List.cons_append, List.cons_prefix_cons, List.cons_prefix_cons] at hstart
        rw [← hrest, ← hstart.1, ← hstart.2.1] at hopen
        exact hopen _ rfl rfl
    · exact hbody hin

theorem matches_of_lexeme? {p : Pattern} {input text : List Char}
    (h : p.lexeme? input = some text) : p.Matches text := by
  cases p with
  | blanks => exact .blanks (run?_ne_nil h) (all_of_run? h)
  | digits => exact .digits (run?_ne_nil h) (all_of_run? h)
  | lineComment =>
    simp only [lexeme?, lineComment?] at h
    split at h
    · rw [← Option.some.inj h]
      exact .lineComment ne_newline_of_mem_takeWhile
    · cases h
  | blockComment =>
    simp only [lexeme?, blockComment?] at h
    split at h
    · obtain ⟨tail, htail, rfl⟩ := Option.map_eq_some_iff.1 h
      obtain ⟨body, rfl, -⟩ := throughClose?_eq_some htail
      exact .blockComment
    · cases h
  | word =>
    simp only [lexeme?, word?] at h
    split at h
    · cases h
    · split at h
      · rename_i hstart
        rw [← Option.some.inj h]
        exact .word hstart (List.all_eq_true.1 List.all_takeWhile)
      · cases h
  | decimal =>
    simp only [lexeme?, decimal?] at h
    split at h
    · split at h
      · cases h
      · rename_i hne
        rw [← Option.some.inj h]
        exact .decimal (List.all_eq_true.1 List.all_takeWhile)
          (List.all_eq_true.1 List.all_takeWhile) hne
    · cases h
  | mark kind mark =>
    simp only [lexeme?] at h
    split at h
    · rw [← Option.some.inj h]
      exact .mark
    · cases h

/-! ## Lexemes are found, and they are the longest -/

theorem run?_append {p : Char → Bool} {text : List Char} (hne : text ≠ [])
    (hall : ∀ c ∈ text, p c = true) (rest : List Char) :
    run? p (text ++ rest) = some (text ++ rest.takeWhile p) := by
  unfold run?
  rw [List.takeWhile_append_of_pos hall]
  split
  · rename_i hnil
    exact absurd (List.append_eq_nil_iff.1 hnil).1 hne
  · rfl

theorem throughClose?_append (body rest : List Char) :
    ∃ text, throughClose? (body ++ '*' :: '/' :: rest) = some text := by
  induction body with
  | nil => exact ⟨_, rfl⟩
  | cons c body ih =>
    obtain ⟨text, htext⟩ := ih
    rw [List.cons_append, throughClose?.eq_def]
    split
    · rename_i hnil
      cases hnil
    · exact ⟨_, rfl⟩
    · rename_i hcons
      cases hcons
      exact ⟨_, by rw [htext]; rfl⟩

/-- Where a text of the pattern stands, the pattern finds one that is no shorter, or else the first
end of a block comment. -/
theorem Matches.exists_lexeme? {p : Pattern} {text : List Char} (h : p.Matches text)
    (rest : List Char) : ∃ found, p.lexeme? (text ++ rest) = some found ∧
      (p ≠ .blockComment → text.length ≤ found.length) := by
  cases h with
  | blanks hne hall | digits hne hall =>
    exact ⟨_, run?_append hne hall rest, by simp⟩
  | @lineComment body hbody =>
    have hall : ∀ c ∈ body, (decide (c ≠ '\n')) = true := by
      intro c hc
      exact decide_eq_true fun heq => hbody (heq ▸ hc)
    refine ⟨'/' :: '/' :: (body ++ rest.takeWhile (· ≠ '\n')), ?_, by simp⟩
    rw [← List.takeWhile_append_of_pos hall]
    rfl
  | @blockComment body =>
    obtain ⟨found, hfound⟩ := throughClose?_append body rest
    refine ⟨'/' :: '*' :: found, ?_, fun h => absurd rfl h⟩
    simp [lexeme?, blockComment?, hfound]
  | @word c text hstart hpart =>
    refine ⟨c :: (text ++ rest.takeWhile isWordPart), ?_, by simp⟩
    simp only [lexeme?, word?, List.cons_append, hstart, if_true,
      List.takeWhile_append_of_pos hpart]
  | @decimal whole fraction hw hf hne =>
    refine ⟨whole ++ '.' :: (fraction ++ rest.takeWhile Char.isDigit), ?_, by simp⟩
    have hpoint : ∀ c ∈ ('.' :: (fraction ++ rest)).head?, c.isDigit = false := by simp
    have hnot : ¬ (whole = [] ∧ fraction ++ rest.takeWhile Char.isDigit = []) := by
      rintro ⟨rfl, hnil⟩
      exact hne ⟨rfl, (List.append_eq_nil_iff.1 hnil).1⟩
    simp only [lexeme?, decimal?, List.append_assoc, List.cons_append,
      dropWhile_of_break hw hpoint, takeWhile_of_break hw hpoint,
      List.takeWhile_append_of_pos hf, if_neg hnot]
  | @mark kind text =>
    refine ⟨text, ?_, fun _ => Nat.le_refl _⟩
    simp [lexeme?]

theorem lexeme?_eq_none {p : Pattern} {input : List Char} :
    p.lexeme? input = none ↔ ¬ p.Applies input := by
  constructor
  · rintro hnone ⟨text, ⟨rest, rfl⟩, hmatch⟩
    obtain ⟨found, hfound, -⟩ := hmatch.exists_lexeme? rest
    rw [hnone] at hfound
    cases hfound
  · intro hnone
    cases hfound : p.lexeme? input with
    | none => rfl
    | some text => exact absurd ⟨text, lexeme?_isPrefix hfound, matches_of_lexeme? hfound⟩ hnone

/-! ## The order of the patterns -/

def begins : Pattern → Char → Bool
  | blanks, c => isBlank c
  | lineComment, c | blockComment, c => c = '/'
  | word, c => isWordStart c
  | decimal, c => c.isDigit || c = '.'
  | digits, c => c.isDigit
  | mark _ text, c => text.head? = some c

theorem Matches.begins {p : Pattern} {c : Char} {text : List Char} (h : p.Matches (c :: text)) :
    p.begins c = true := by
  generalize htext : c :: text = whole at h
  cases h with
  | blanks _ hall | digits _ hall => exact hall c (htext ▸ List.mem_cons_self)
  | lineComment _ | blockComment =>
    cases htext
    rfl
  | word hstart _ =>
    cases htext
    exact hstart
  | @decimal digits fraction hw _ _ =>
    cases digits with
    | nil =>
      cases htext
      rfl
    | cons d digits =>
      cases htext
      simp [Pattern.begins, hw c List.mem_cons_self]
  | mark =>
    subst htext
    simp [Pattern.begins]

/-- A pattern for tokens that stands before another one and applies is not beaten by it: they begin
with different characters, or the texts of the other one are no longer. -/
def outranks : Pattern → Pattern → Bool
  | blanks, _ | lineComment, _ | blockComment, _ => true
  | word, decimal | word, digits | decimal, digits => true
  | word, mark _ text | decimal, mark _ text | digits, mark _ text =>
    text.head?.any fun c => !isWordStart c && !c.isDigit && c ≠ '.'
  | mark _ text, mark _ text' => !text.isPrefixOf text' || text'.length ≤ text.length
  | _, _ => false

theorem all_pairwise_outranks : all.Pairwise fun p q => p.outranks q = true := by decide

theorem not_begins_mark {kind : Kind} {text : List Char} {c : Char}
    (h : text.head?.any (fun c => !isWordStart c && !c.isDigit && c ≠ '.') = true)
    (hc : (mark kind text).begins c = true) :
    isWordStart c = false ∧ c.isDigit = false ∧ c ≠ '.' := by
  have hhead : text.head? = some c := by simpa [begins] using hc
  simpa [hhead, and_assoc] using h

theorem outranks_cases {p q : Pattern} {text : List Char} {kind : Kind} (h : p.outranks q = true)
    (hkind : p.kind? text = some kind) :
    (∀ c, p.begins c = true → q.begins c = false) ∨ (p = .decimal ∧ q = .digits) ∨
      ∃ kind mark kind' mark', p = .mark kind mark ∧ q = .mark kind' mark' ∧
        (mark <+: mark' → mark'.length ≤ mark.length) := by
  have hpoint : isWordStart '.' = false := by decide
  cases p with
  | blanks | lineComment | blockComment => cases hkind
  | word =>
    left
    intro c hc
    rw [Bool.eq_false_iff]
    intro hc'
    have hc : isWordStart c = true := hc
    cases q with
    | blanks | lineComment | blockComment | word => cases h
    | decimal =>
      rcases Bool.or_eq_true_iff.1 hc' with hdigit | hdot
      · rw [isWordStart_of_isDigit hdigit] at hc
        cases hc
      · rw [of_decide_eq_true hdot, hpoint] at hc
        cases hc
    | digits =>
      rw [isWordStart_of_isDigit hc'] at hc
      cases hc
    | mark kind mark =>
      rw [(not_begins_mark h hc').1] at hc
      cases hc
  | decimal =>
    cases q with
    | blanks | lineComment | blockComment | word | decimal => cases h
    | digits => exact .inr (.inl ⟨rfl, rfl⟩)
    | mark kind mark =>
      left
      intro c hc
      rw [Bool.eq_false_iff]
      intro hc'
      obtain ⟨-, hdigit, hdot⟩ := not_begins_mark h hc'
      rcases Bool.or_eq_true_iff.1 hc with hc | hc
      · rw [hdigit] at hc
        cases hc
      · exact hdot (of_decide_eq_true hc)
  | digits =>
    cases q with
    | blanks | lineComment | blockComment | word | decimal | digits => cases h
    | mark kind mark =>
      left
      intro c hc
      rw [Bool.eq_false_iff]
      intro hc'
      have hc : c.isDigit = true := hc
      rw [(not_begins_mark h hc').2.1] at hc
      cases hc
  | mark kind mark =>
    cases q with
    | blanks | lineComment | blockComment | word | decimal | digits => cases h
    | mark kind' mark' =>
      refine .inr (.inr ⟨kind, mark, kind', mark', rfl, rfl, fun hprefix => ?_⟩)
      have hlong : mark.isPrefixOf mark' = true := List.isPrefixOf_iff_prefix.2 hprefix
      simpa [outranks, hlong] using h

theorem Matches.ne_nil {p : Pattern} {text : List Char} (h : p.Matches text) (hp : p ∈ all) :
    text ≠ [] := by
  cases h with
  | blanks hne _ | digits hne _ => exact hne
  | lineComment _ | blockComment | word _ _ => exact List.cons_ne_nil _ _
  | decimal _ _ _ => simp
  | @mark kind text => exact mark_ne_nil _ hp kind text rfl

/-- What the lexer takes at some place: the text of a token, found by the first pattern that applies
there and longer than any other text that a pattern has. -/
structure Takes (p : Pattern) (text rest : List Char) : Prop where
  belongs : p.Matches text
  first : ∃ before behind, all = before ++ p :: behind ∧
    ∀ q ∈ before, ¬ q.Applies (text ++ rest)
  longest : ∀ q ∈ all, ∀ text', text' <+: text ++ rest → q.Matches text' →
    text'.length ≤ text.length

theorem length_le_of_outranks {p q : Pattern} {kind : Kind} {text text' input : List Char}
    (h : p.outranks q = true) (hp : p ∈ all) (hq : q ∈ all) (hkind : p.kind? text = some kind)
    (hfound : p.lexeme? input = some text) (hmatch : q.Matches text') (ht' : text' <+: input) :
    text'.length ≤ text.length := by
  have hown := matches_of_lexeme? hfound
  have ht := lexeme?_isPrefix hfound
  rcases outranks_cases h hkind with hapart | ⟨rfl, rfl⟩ | ⟨_, mark, _, mark', rfl, rfl, hlong⟩
  · obtain ⟨c, text, rfl⟩ := List.exists_cons_of_ne_nil (hown.ne_nil hp)
    obtain ⟨c', text', rfl⟩ := List.exists_cons_of_ne_nil (hmatch.ne_nil hq)
    obtain ⟨rest, rfl⟩ := ht
    obtain ⟨rfl, -⟩ := List.cons_prefix_cons.1 ht'
    have hbegins := hapart c' hown.begins
    rw [hmatch.begins] at hbegins
    cases hbegins
  · -- the digits stand before the point or are all of the number's first part
    obtain ⟨rest, rfl⟩ := ht'
    cases hmatch with
    | digits hne hall =>
      simp only [lexeme?, decimal?, List.takeWhile_append_of_pos hall] at hfound
      split at hfound
      · split at hfound
        · cases hfound
        · rw [← Option.some.inj hfound]
          simp
      · cases hfound
  · cases hown
    cases hmatch
    rcases List.prefix_or_prefix_of_prefix ht ht' with hprefix | hprefix
    · exact hlong hprefix
    · exact hprefix.length_le

theorem takes_of_first? {p : Pattern} {text rest : List Char} {kind : Kind}
    (h : first? (text ++ rest) = some (p, text)) (hkind : p.kind? text = some kind) :
    p.Takes text rest := by
  obtain ⟨before, _, behind, hall, hfound, hbefore⟩ := List.findSome?_eq_some_iff.1 h
  obtain ⟨text', hlexeme, heq⟩ := Option.map_eq_some_iff.1 hfound
  cases heq
  have hnone : ∀ q ∈ before, ¬ q.Applies (text ++ rest) := by
    intro q hq
    exact lexeme?_eq_none.1 (Option.map_eq_none_iff.1 (hbefore q hq))
  refine ⟨matches_of_lexeme? hlexeme, ⟨before, behind, hall, hnone⟩, ?_⟩
  intro q hq text' ht' hmatch
  have hp : p ∈ all := by simp [hall]
  have hq' := hq
  rw [hall, List.mem_append, List.mem_cons] at hq'
  rcases hq' with hq' | rfl | hq'
  · exact absurd ⟨text', ht', hmatch⟩ (hnone q hq')
  · obtain ⟨rest', hrest'⟩ := ht'
    obtain ⟨found, hfound', hle⟩ := hmatch.exists_lexeme? rest'
    rw [hrest', hlexeme] at hfound'
    rw [Option.some.inj hfound']
    refine hle ?_
    rintro rfl
    cases hkind
  · have hpair := all_pairwise_outranks
    rw [hall, List.pairwise_append, List.pairwise_cons] at hpair
    exact length_le_of_outranks (hpair.2.1.1 q hq') hp hq hkind hlexeme hmatch ht'

end Pattern

end Leveret
