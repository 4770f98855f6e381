import Leveret.Proofs.Faults.Placement

/-!
# Comments that are never closed

A comment that is opened and never closed is no comment: what opens it is lexed as the two signs
that it looks like. No program has these two in a row, because behind an operator between two
operands there is an operand, so the source is rejected whatever else the comment holds.
-/

namespace Leveret

/-! ## Operators are followed by operands -/

namespace Grammar

/-- Behind every token that only stands between operands there is one that an operand begins
with. -/
def Supplied (tokens : List Token) : Prop :=
  ∀ before t after, tokens = before ++ t :: after → t.kind.isInfixOnly = true →
    ∃ u rest, after = u :: rest ∧ u.kind.startsOperand = true

section Supplied

variable {t : Token} {tokens tokens' : List Token}

theorem supplied_nil : Supplied [] := by
  intro before t after h
  cases before <;> cases h

theorem Supplied.cons (h : Supplied tokens) (ht : t.kind.isInfixOnly = true →
    ∃ u rest, tokens = u :: rest ∧ u.kind.startsOperand = true) : Supplied (t :: tokens) := by
  intro before t' after hsplit hinfix
  cases before with
  | nil =>
    cases hsplit
    exact ht hinfix
  | cons t'' before =>
    obtain ⟨rfl, rfl⟩ := List.cons.inj hsplit
    exact h before t' after rfl hinfix

theorem Supplied.word (h : Supplied tokens) (ht : t.kind.isInfixOnly = false) :
    Supplied (t :: tokens) := by
  refine h.cons fun hinfix => ?_
  rw [ht] at hinfix
  cases hinfix

theorem Supplied.append (h : Supplied tokens) (h' : Supplied tokens') :
    Supplied (tokens ++ tokens') := by
  intro before t after hsplit hinfix
  rcases List.append_eq_append_iff.1 hsplit with ⟨between, rfl, hbehind⟩ | ⟨between, rfl, hbehind⟩
  · exact h' between t after hbehind hinfix
  · cases between with
    | nil => exact h' [] t after hbehind.symm hinfix
    | cons t' between =>
      obtain ⟨rfl, rfl⟩ := List.cons.inj hbehind
      obtain ⟨u, rest, rfl, hu⟩ := h before t between rfl hinfix
      exact ⟨u, rest ++ tokens', rfl, hu⟩

end Supplied

theorem Word.isInfixOnly {kind : Kind} (word : Word kind) (h : kind.isInfixOnly = false) :
    word.token.kind.isInfixOnly = false := by
  rw [word.kind_eq, h]

theorem isInfixOnly_of_startsOperand {kind : Kind} (h : kind.startsOperand = true) :
    kind.isInfixOnly = false := by
  cases kind <;> first | rfl | cases h

theorem Sign.isInfixOnly (sign : Sign) : sign.token.kind.isInfixOnly = false := by
  have hsign := mem_signs.1 sign.listed
  cases hk : sign.token.kind <;> rw [hk] at hsign <;> first | rfl | cases hsign

theorem supplied_typeTokens (ty : Option TypeWord) {tokens : List Token} (h : Supplied tokens) :
    Supplied (typeTokens ty ++ tokens) := by
  cases ty with
  | none => exact h
  | some word => exact h.word (by rw [word.kind_eq]; rfl)

mutual

theorem Phrase.supplied {level : Level} : (p : Phrase level) → Supplied p.tokens
  | .chain first more => by
    rw [Phrase.tokens]
    exact first.supplied.append more.supplied
  | .signed sign operand => by
    rw [Phrase.tokens]
    exact operand.supplied.word sign.isInfixOnly
  | .unsigned operand => by
    rw [Phrase.tokens]
    exact operand.supplied
  | .constant constant => by
    rw [Phrase.tokens]
    exact supplied_nil.word
      (isInfixOnly_of_startsOperand (literal?_startsOperand constant.spells).1)
  | .name name => by
    rw [Phrase.tokens]
    exact supplied_nil.word (name.isInfixOnly rfl)
  | .group opening inner closing => by
    rw [Phrase.tokens]
    have hclosing := supplied_nil.word (closing.isInfixOnly rfl)
    exact (inner.supplied.append hclosing).word (opening.isInfixOnly rfl)
  | .compound body => by
    rw [Phrase.tokens]
    exact body.supplied

theorem Chain.supplied {tier : Tier} : (chain : Chain tier) → Supplied chain.tokens
  | .nil => by
    rw [Chain.tokens]
    exact supplied_nil
  | .cons operator operand more => by
    rw [Chain.tokens]
    refine (operand.supplied.append more.supplied).cons fun _ => ?_
    obtain ⟨u, rest, htokens, hu, -⟩ := operand.head
    exact ⟨u, rest ++ more.tokens, by rw [htokens, List.cons_append], hu⟩

theorem Braces.supplied : (p : Braces) → Supplied p.tokens
  | .mk opening inside closing => by
    rw [Braces.tokens]
    have hclosing := supplied_nil.word (closing.isInfixOnly rfl)
    exact (inside.supplied.append hclosing).word (opening.isInfixOnly rfl)

theorem Conditional.supplied : (p : Conditional) → Supplied p.tokens
  | .only word test consequence => by
    rw [Conditional.tokens]
    exact (test.supplied.append consequence.supplied).word (word.isInfixOnly rfl)
  | .otherwise word test consequence word' alternative
  | .elseIf word test consequence word' alternative => by
    rw [Conditional.tokens]
    have halternative := alternative.supplied.word (word'.isInfixOnly rfl)
    exact ((test.supplied.append consequence.supplied).append halternative).word
      (word.isInfixOnly rfl)

theorem Sentence.supplied : (p : Sentence) → Supplied p.tokens
  | .varZero word name ty semicolon => by
    rw [Sentence.tokens]
    have htype := supplied_typeTokens (some ty) (supplied_nil.word (semicolon.isInfixOnly rfl))
    exact (htype.word (name.isInfixOnly rfl)).word (word.isInfixOnly rfl)
  | .varInit word name ty equals init semicolon | .const word name ty equals init semicolon => by
    rw [Sentence.tokens]
    have hinit := init.supplied.append (supplied_nil.word (semicolon.isInfixOnly rfl))
    have htype := supplied_typeTokens ty (hinit.word (equals.isInfixOnly rfl))
    have hall := (htype.word (name.isInfixOnly rfl)).word (word.isInfixOnly rfl)
    simpa using hall
  | .assign name equals value semicolon => by
    rw [Sentence.tokens]
    have hvalue := value.supplied.append (supplied_nil.word (semicolon.isInfixOnly rfl))
    exact (hvalue.word (equals.isInfixOnly rfl)).word (name.isInfixOnly rfl)
  | .print word value semicolon => by
    rw [Sentence.tokens]
    have hvalue := value.supplied.append (supplied_nil.word (semicolon.isInfixOnly rfl))
    exact hvalue.word (word.isInfixOnly rfl)
  | .conditional conditional => by
    rw [Sentence.tokens]
    exact conditional.supplied
  | .whileLoop word test body => by
    rw [Sentence.tokens]
    exact (test.supplied.append body.supplied).word (word.isInfixOnly rfl)
  | .breakLoop word semicolon | .continueLoop word semicolon => by
    rw [Sentence.tokens]
    exact (supplied_nil.word (semicolon.isInfixOnly rfl)).word (word.isInfixOnly rfl)
  | .expr value semicolon => by
    rw [Sentence.tokens]
    exact value.supplied.append (supplied_nil.word (semicolon.isInfixOnly rfl))

theorem Sentences.supplied : (p : Sentences) → Supplied p.tokens
  | .nil => by
    rw [Sentences.tokens]
    exact supplied_nil
  | .cons sentence rest => by
    rw [Sentences.tokens]
    exact sentence.supplied.append rest.supplied

end

end Grammar

/-! ## Programs -/

namespace Program

open Grammar Leveret.Parser

variable {file : String} {before after : List Token} {t u : Token}

/-- What an accepted list of tokens has in front of a token that ends no file, it has up to the
first that does. -/
theorem exists_derivation_through {p : Program} (hbefore : Unended before)
    (ht : t.kind ≠ .endOfFile) (h : ofTokens (before ++ t :: after) file = .ok p) :
    ∃ (d : Sentences) (more : List Token), d.tokens = before ++ t :: more := by
  obtain ⟨c, hreads, -⟩ := ofTokens_eq_ok.1 h
  obtain ⟨hend, d, hd, -⟩ := reads_follows hreads
  obtain ⟨more, hpending⟩ := Cursor.ofTokens_through before ht after file
  have hsplit : before ++ [t] ++ more = d.tokens ++ c.pending := by
    rw [← hd, hpending, List.append_assoc]
    rfl
  rcases List.append_eq_append_iff.1 hsplit with ⟨more', hd', -⟩ | ⟨unread, hread, hc⟩
  · exact ⟨d, more', by rw [hd', List.append_assoc]; rfl⟩
  · -- what is left unread begins with the end of a file, and there is none up to `t`
    cases unread with
    | nil => exact ⟨d, [], by simpa using hread.symm⟩
    | cons u unread =>
      have hu : u.kind ≠ .endOfFile := by
        have hall : Unended (before ++ [t]) := by simp [hbefore, ht]
        exact hall u (by simp [hread])
      have hkind : c.kind = u.kind := by
        rw [Cursor.kind, Cursor.current, hc]
        rfl
      exact absurd (hkind ▸ hend) hu

/-- No program goes on behind an operator with what begins no operand. -/
theorem ofTokens_ne_ok_of_unsupplied {p : Program} (hbefore : Unended before)
    (ht : t.kind.isInfixOnly = true) (hu : u.kind ≠ .endOfFile)
    (hstart : u.kind.startsOperand = false) :
    ofTokens (before ++ t :: u :: after) file ≠ .ok p := by
  intro h
  have hsplit : before ++ t :: u :: after = before ++ [t] ++ u :: after := by simp
  have htend : t.kind ≠ .endOfFile := by
    intro hk
    rw [hk] at ht
    cases ht
  rw [hsplit] at h
  obtain ⟨d, more, hd⟩ := exists_derivation_through (by simp [hbefore, htend]) hu h
  obtain ⟨u', rest, hrest, hu'⟩ := d.supplied before t (u :: more) (by simp [hd]) ht
  cases hrest
  rw [hstart] at hu'
  cases hu'

end Program

/-! ## Where the lexer comes by -/

open Text Pattern

/-- The lexer cuts pieces off the text until `rest` is left. -/
inductive Token.ScansTo (rest : List Char) : List Char → Prop
  | here : ScansTo rest rest
  | step {pattern piece text} : first? (piece ++ text) = some (pattern, piece) →
      ScansTo rest text → ScansTo rest (piece ++ text)

namespace Pattern

variable {text after : List Char}

theorem throughClose?_eq_none (h : ¬ ['*', '/'] <:+: text) : throughClose? text = none := by
  cases hfound : throughClose? text with
  | none => rfl
  | some piece =>
    obtain ⟨body, rfl, -⟩ := throughClose?_eq_some hfound
    have hclose : ['*', '/'] <:+: body ++ ['*', '/'] := (List.suffix_append _ _).isInfix
    exact absurd (hclose.trans (throughClose?_isPrefix hfound).isInfix) h

theorem first?_opening (h : ¬ ['*', '/'] <:+: after) :
    first? ('/' :: '*' :: after) = some (.mark .slash ['/'], ['/']) := by
  have hblock : blockComment? ('/' :: '*' :: after) = none := by
    rw [blockComment?, throughClose?_eq_none h]
    rfl
  have hline : lineComment? ('/' :: '*' :: after) = none := by simp [lineComment?]
  unfold first? Pattern.all
  simp only [List.cons_append, List.nil_append, List.findSome?_cons, lexeme?, hline, hblock,
    Option.map_none]
  rfl

end Pattern

namespace Token

variable {file : String} {rest text after : List Char}

theorem ScansTo.scan_eq (h : ScansTo rest text) (file : String) (offset : Nat) : ∃ words place,
    Grammar.Unended words ∧ place + byteSize rest = offset + byteSize text ∧
    scan file 0 offset text = (scan file 0 place rest).map (words ++ ·) := by
  induction h generalizing offset with
  | here =>
    refine ⟨[], offset, Grammar.unended_nil, rfl, ?_⟩
    cases scan file 0 offset rest <;> rfl
  | @step pattern piece text hfirst _ ih =>
    obtain ⟨words, place, hwords, hplace, hscan⟩ := ih (offset + byteSize piece)
    rw [scan_of_first? hfirst, hscan, byteSize_append]
    cases hkind : pattern.kind? piece with
    | none => exact ⟨words, place, hwords, by omega, rfl⟩
    | some kind =>
      have hend : kind ≠ .endOfFile := (kind?_plain (of_first? hfirst).1 hkind).1
      let word : Token := ⟨kind, String.ofList piece, .ofIndex offset (byteSize piece) file⟩
      refine ⟨word :: words, place, Grammar.unended_cons.2 ⟨hend, hwords⟩, by omega, ?_⟩
      cases scan file 0 place rest <;> rfl

theorem scan_opening (h : ¬ ['*', '/'] <:+: after) (place : Nat) :
    scan file 0 place ('/' :: '*' :: after) = (scan file 0 (place + 2) after).map
      ([⟨.slash, "/", .ofIndex place 1 file⟩, ⟨.star, "*", .ofIndex (place + 1) 1 file⟩] ++ ·) := by
  have hfirst : first? ('*' :: after) = some (.mark .star ['*'], ['*']) := rfl
  have hslash := @scan_of_first? file place _ ['/'] ('*' :: after) (first?_opening h)
  have hstar := @scan_of_first? file (place + 1) _ ['*'] after hfirst
  refine hslash.trans ?_
  change (scan file 0 (place + 1) ('*' :: after)).map _ = _
  refine (congrArg (Except.map _) hstar).trans ?_
  change ((scan file 0 (place + 2) after).map _).map _ = _
  cases scan file 0 (place + 2) after <;> rfl

theorem ofSource_opening {source : String} {tokens : List Token}
    (hreach : ScansTo ('/' :: '*' :: after) source.toList) (hopen : ¬ ['*', '/'] <:+: after)
    (h : ofSource source file = .ok tokens) : ∃ before place behind,
      tokens = before ++ ⟨.slash, "/", .ofIndex place 1 file⟩ ::
        ⟨.star, "*", .ofIndex (place + 1) 1 file⟩ :: behind ∧
      Grammar.Unended before ∧ place + 2 + byteSize after = source.utf8ByteSize := by
  obtain ⟨words, place, hwords, hplace, hscan⟩ := hreach.scan_eq file 0
  rw [ofSource, hscan, scan_opening hopen] at h
  obtain ⟨signs, hsigns, rfl⟩ := map_eq_ok.1 h
  obtain ⟨behind, -, rfl⟩ := map_eq_ok.1 hsigns
  refine ⟨words, place, behind, rfl, hwords, ?_⟩
  have hsize : byteSize ('/' :: '*' :: after) = 2 + byteSize after := by
    rw [byteSize_cons, byteSize_cons, ← Nat.add_assoc]
    rfl
  rw [hsize, Nat.zero_add, byteSize_toList, ← Nat.add_assoc] at hplace
  exact hplace

end Token

/-! ## Rejection -/

theorem ofTokens_slash_star {before : List Token} {slash star : Token}
    (hbefore : Grammar.Unended before) (hslash : slash.kind = .slash) (hstar : star.kind = .star)
    (after : List Token) (file : String) :
    ∃ d, Program.ofTokens (before ++ slash :: star :: after) file = .error d := by
  cases h : Program.ofTokens (before ++ slash :: star :: after) file with
  | ok p =>
    exact absurd h (Program.ofTokens_ne_ok_of_unsupplied hbefore (by rw [hslash]; rfl)
      (by rw [hstar]; decide) (by rw [hstar]; rfl))
  | error d => exact ⟨d, rfl⟩

/-- A source in which the lexer comes to a comment that is never closed is rejected for a fault of
its spelling. If it has tokens, a slash and a star stand where the comment is opened, and no list
of tokens with a slash in front of a star spells a program. -/
theorem checkSource_unclosed_comment (file : String) :
    (∀ (source : String) (after : List Char),
      Token.ScansTo ('/' :: '*' :: after) source.toList → ¬ ['*', '/'] <:+: after →
      (∃ d, checkSource source file = .error [d] ∧ d.cause.isSpelling = true) ∧
      ∀ tokens, Token.ofSource source file = .ok tokens → ∃ before place behind,
        tokens = before ++ ⟨.slash, "/", .ofIndex place 1 file⟩ ::
          ⟨.star, "*", .ofIndex (place + 1) 1 file⟩ :: behind ∧
        (∀ t ∈ before, t.kind ≠ .endOfFile) ∧
        place + 2 + byteSize after = source.utf8ByteSize) ∧
    ∀ (before after : List Token) (slash star : Token),
      (∀ t ∈ before, t.kind ≠ .endOfFile) → slash.kind = .slash → star.kind = .star →
      ∃ d, Program.ofTokens (before ++ slash :: star :: after) file = .error d := by
  refine ⟨fun source after hreach hopen => ⟨?_, fun tokens htokens => ?_⟩, ?_⟩
  · have hfails : ∃ d, Program.ofSource source file = .error d := by
      cases htokens : Token.ofSource source file with
      | error d => exact ⟨d, by rw [Program.ofSource, htokens]; rfl⟩
      | ok tokens =>
        obtain ⟨before, place, behind, rfl, hbefore, -⟩ :=
          Token.ofSource_opening hreach hopen htokens
        have hsigns : ∃ d, Program.ofTokens (before ++ ⟨.slash, "/", .ofIndex place 1 file⟩ ::
            ⟨.star, "*", .ofIndex (place + 1) 1 file⟩ :: behind) file = .error d :=
          ofTokens_slash_star hbefore rfl rfl behind file
        obtain ⟨d, hd⟩ := hsigns
        exact ⟨d, by rw [Program.ofSource, htokens]; exact hd⟩
    obtain ⟨d, hd⟩ := hfails
    exact ⟨d, by rw [checkSource, hd], Program.isSpelling_of_ofSource hd⟩
  · exact Token.ofSource_opening hreach hopen htokens
  · intro before after slash star hbefore hslash hstar
    exact ofTokens_slash_star hbefore hslash hstar after file

/-- A comment that is opened twice and closed by a slash alone. -/
theorem exists_checkSource_unclosed_comment :
    (∃ d, checkSource "print 6 /*/ 2;" "demo" = .error [d] ∧ d.cause.isSpelling = true) ∧
    ∃ before place behind, Token.ofSource "print 6 /*/ 2;" "demo" = .ok (before ++
        ⟨.slash, "/", .ofIndex place 1 "demo"⟩ :: ⟨.star, "*", .ofIndex (place + 1) 1 "demo"⟩ ::
          behind) ∧
      place = 8 ∧ ∃ d, Program.ofTokens (before ++ ⟨.slash, "/", .ofIndex place 1 "demo"⟩ ::
        ⟨.star, "*", .ofIndex (place + 1) 1 "demo"⟩ :: behind) "demo" = .error d := by
  have hreach : Token.ScansTo ('/' :: '*' :: "/ 2;".toList) "print 6 /*/ 2;".toList :=
    @Token.ScansTo.step _ .word "print".toList _ (by decide) <|
    @Token.ScansTo.step _ .blanks [' '] _ (by decide) <|
    @Token.ScansTo.step _ .digits ['6'] _ (by decide) <|
    @Token.ScansTo.step _ .blanks [' '] _ (by decide) .here
  have hok : (Token.ofSource "print 6 /*/ 2;" "demo").toOption.isSome = true := by decide +kernel
  obtain ⟨tokens, htokens⟩ := Option.isSome_iff_exists.1 hok
  have htokens := toOption_eq_some.1 htokens
  obtain ⟨hsource, hlist⟩ := checkSource_unclosed_comment "demo"
  obtain ⟨hrejected, hsigns⟩ := hsource "print 6 /*/ 2;" "/ 2;".toList hreach (by decide)
  obtain ⟨before, place, behind, rfl, hbefore, hplace⟩ := hsigns tokens htokens
  have hsizes : byteSize "/ 2;".toList = 4 ∧ "print 6 /*/ 2;".utf8ByteSize = 14 := by decide
  refine ⟨hrejected, before, place, behind, htokens, by omega, ?_⟩
  exact hlist before behind _ _ hbefore rfl rfl

end Leveret
