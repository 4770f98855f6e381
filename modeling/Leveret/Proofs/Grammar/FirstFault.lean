import Leveret.Pipeline
import Leveret.Proofs.Grammar.Exactness
import Leveret.Proofs.Grammar.Viability
import Leveret.Proofs.Parsing.Locality
import Leveret.Proofs.Printing.Lexing

/-!
# The first token that cannot stand

A syntax fault is reported at the first token that cannot stand where it is: what is before it can
be finished, and nothing can follow it.
-/

namespace Leveret

/-! ## The tokens of a text -/

theorem Pattern.kind?_plain {p : Pattern} {text : List Char} {kind : Kind} (hp : p ∈ all)
    (h : p.kind? text = some kind) : kind ≠ .endOfFile ∧
      (kind = .typeName → (String.ofList text, .typeName) ∈ Kind.reserved) := by
  by_cases hword : p = .word
  · subst hword
    have hall : ∀ entry ∈ Kind.reserved, entry.2 ≠ .endOfFile := by decide
    rw [← Option.some.inj h]
    cases hof : Kind.ofWord? (String.ofList text) with
    | none => exact ⟨nofun, nofun⟩
    | some kind =>
      have hmem := mem_reserved hof
      refine ⟨hall _ hmem, ?_⟩
      rintro rfl
      exact hmem
  · have hall : ∀ p ∈ all, p ≠ .word → ∀ kind ∈ p.kind? [],
        kind ≠ .endOfFile ∧ kind ≠ .typeName := by decide
    have hkind : p.kind? [] = some kind := by
      cases p with
      | blanks | lineComment | blockComment => cases h
      | word => exact absurd rfl hword
      | decimal | digits | mark => exact h
    obtain ⟨hend, htype⟩ := hall p hp hword kind hkind
    exact ⟨hend, fun h => absurd h htype⟩

namespace Token

/-- A token that does not end a source. If it names a type, there is one. -/
structure Plain (t : Token) : Prop where
  kind_ne : t.kind ≠ .endOfFile
  names : t.kind = .typeName → ∃ ty, Ty.ofName? t.text = some ty

theorem plain_of_scan {file : String} {text : List Char} {skip offset : Nat} {tokens : List Token}
    (h : scan file skip offset text = .ok tokens) :
    ∃ words eof, tokens = words ++ [eof] ∧ eof.kind = .endOfFile ∧ ∀ t ∈ words, t.Plain := by
  induction text generalizing skip offset tokens with
  | nil =>
    rw [scan] at h
    cases h
    exact ⟨[], _, rfl, rfl, List.forall_mem_nil _⟩
  | cons c rest ih =>
    cases skip with
    | succ skip => exact ih h
    | zero =>
      rw [scan] at h
      split at h
      · cases h
      · rename_i pattern lexeme hfirst
        dsimp only at h
        split at h
        · exact ih h
        · rename_i kind hkind
          obtain ⟨more, hmore, rfl⟩ := map_eq_ok.1 h
          obtain ⟨words, eof, rfl, heof, hplain⟩ := ih hmore
          have hnamed : ∀ entry ∈ Kind.reserved, entry.2 = .typeName →
              (Ty.ofName? entry.1).isSome = true := by decide
          obtain ⟨hend, htype⟩ := Pattern.kind?_plain (of_first? hfirst).1 hkind
          refine ⟨_ :: words, eof, rfl, heof, List.forall_mem_cons.2 ⟨⟨hend, fun hk => ?_⟩, hplain⟩⟩
          exact Option.isSome_iff_exists.1 (hnamed _ (htype hk) rfl)

end Token

/-! ## Derivations never end a source -/

namespace Grammar

def Unended (tokens : List Token) : Prop := ∀ t ∈ tokens, t.kind ≠ .endOfFile

@[simp]
theorem unended_nil : Unended [] := nofun

@[simp]
theorem unended_cons {t : Token} {tokens : List Token} :
    Unended (t :: tokens) ↔ t.kind ≠ .endOfFile ∧ Unended tokens := List.forall_mem_cons

@[simp]
theorem unended_append {tokens tokens' : List Token} :
    Unended (tokens ++ tokens') ↔ Unended tokens ∧ Unended tokens' := List.forall_mem_append

theorem Sign.kind_ne (sign : Sign) : sign.token.kind ≠ .endOfFile := by
  intro hk
  have hsign := mem_signs.1 sign.listed
  rw [hk] at hsign
  cases hsign

theorem Operator.kind_ne {tier : Tier} (operator : Operator tier) :
    operator.token.kind ≠ .endOfFile := by
  intro hk
  have hop := (of_mem_operators operator.listed).2
  rw [hk] at hop
  cases hop

theorem Constant.kind_ne (constant : Constant) : constant.token.kind ≠ .endOfFile := by
  intro hk
  have hstart := (literal?_startsOperand constant.spells).1
  rw [hk] at hstart
  cases hstart

theorem unended_typeTokens (ty : Option TypeWord) : Unended (typeTokens ty) := by
  cases ty with
  | none => exact unended_nil
  | some word => simp [typeTokens, word.kind_eq]

mutual

theorem Phrase.unended {level : Level} : (p : Phrase level) → Unended p.tokens
  | .chain first more => by simp [Phrase.tokens, first.unended, more.unended]
  | .signed sign operand => by simp [Phrase.tokens, sign.kind_ne, operand.unended]
  | .unsigned operand => by simp [Phrase.tokens, operand.unended]
  | .constant constant => by simp [Phrase.tokens, constant.kind_ne]
  | .name name => by simp [Phrase.tokens, name.kind_eq]
  | .group opening inner closing => by
    simp [Phrase.tokens, opening.kind_eq, inner.unended, closing.kind_eq]
  | .compound body => by simp [Phrase.tokens, body.unended]

theorem Chain.unended {tier : Tier} : (p : Chain tier) → Unended p.tokens
  | .nil => by simp [Chain.tokens]
  | .cons operator operand more => by
    simp [Chain.tokens, operator.kind_ne, operand.unended, more.unended]

theorem Braces.unended : (p : Braces) → Unended p.tokens
  | .mk opening inside closing => by
    simp [Braces.tokens, opening.kind_eq, inside.unended, closing.kind_eq]

theorem Conditional.unended : (p : Conditional) → Unended p.tokens
  | .only word test consequence => by
    simp [Conditional.tokens, word.kind_eq, test.unended, consequence.unended]
  | .otherwise word test consequence word' alternative
  | .elseIf word test consequence word' alternative => by
    simp [Conditional.tokens, word.kind_eq, test.unended, consequence.unended, word'.kind_eq,
      alternative.unended]

theorem Sentence.unended : (p : Sentence) → Unended p.tokens
  | .varZero word name ty semicolon => by
    simp [Sentence.tokens, word.kind_eq, name.kind_eq, ty.kind_eq, semicolon.kind_eq]
  | .varInit word name ty equals init semicolon | .const word name ty equals init semicolon => by
    simp [Sentence.tokens, word.kind_eq, name.kind_eq, unended_typeTokens, equals.kind_eq,
      init.unended, semicolon.kind_eq]
  | .assign name equals value semicolon => by
    simp [Sentence.tokens, name.kind_eq, equals.kind_eq, value.unended, semicolon.kind_eq]
  | .print word value semicolon => by
    simp [Sentence.tokens, word.kind_eq, value.unended, semicolon.kind_eq]
  | .conditional conditional => by simp [Sentence.tokens, conditional.unended]
  | .whileLoop word test body => by
    simp [Sentence.tokens, word.kind_eq, test.unended, body.unended]
  | .breakLoop word semicolon | .continueLoop word semicolon => by
    simp [Sentence.tokens, word.kind_eq, semicolon.kind_eq]
  | .expr value semicolon => by simp [Sentence.tokens, value.unended, semicolon.kind_eq]

theorem Sentences.unended : (p : Sentences) → Unended p.tokens
  | .nil => by simp [Sentences.tokens]
  | .cons sentence rest => by simp [Sentences.tokens, sentence.unended, rest.unended]

end

end Grammar

/-! ## Faults -/

open Grammar Leveret.Parser

namespace Cursor

theorem ofTokens_lexed {words : List Token} {eof : Token} (heof : eof.kind = .endOfFile)
    (hplain : ∀ t ∈ words, t.Plain) (file : String) : (ofTokens (words ++ [eof]) file).Lexed := by
  refine ⟨ofTokens_closed _ _, fun t ht => ?_⟩
  rw [ofTokens_append words heof] at ht
  exact (hplain t ht).names

theorem ofTokens_through (before : List Token) {t : Token} (ht : t.kind ≠ .endOfFile)
    (more : List Token) (file : String) : ∃ more',
      (ofTokens (before ++ t :: more) file).pending = before ++ t :: more' := by
  unfold ofTokens
  rcases List.eq_nil_or_concat more with rfl | ⟨more', last, rfl⟩
  · exact ⟨[], by simp [ht]⟩
  · have hsplit : before ++ t :: more'.concat last = before ++ t :: more' ++ [last] := by simp
    rw [hsplit, List.getLast?_concat, List.dropLast_concat]
    dsimp only
    split
    · exact ⟨more', rfl⟩
    · exact ⟨more' ++ [last], by simp⟩

end Cursor

namespace Program

variable {tokens : List Token} {file : String} {d : Diagnostic}

theorem ofTokens_eq_error (h : ofTokens tokens file = .error d) :
    ∃ e, (Parser.statements (Cursor.ofTokens tokens file).budget).run (.ofTokens tokens file) =
      .error d e := by
  unfold ofTokens at h
  generalize Cursor.ofTokens tokens file = c at h
  split at h
  · cases h
  · rename_i d' e hrun
    cases h
    rw [Parser.program, run_get_bind, EStateM.run_bind] at hrun
    cases hs : (Parser.statements c.budget).run c with
    | ok a e' =>
      rw [hs] at hrun
      cases hrun
    | error d' e' =>
      rw [hs] at hrun
      cases hrun
      exact ⟨e, rfl⟩

/-- A fault at a token is there whatever follows the token. -/
theorem ofTokens_ne_ok {before rest : List Token} {t : Token} {e : Cursor}
    (hrun : (Parser.statements (Cursor.ofTokens tokens file).budget).run (.ofTokens tokens file) =
      .error d e)
    (hc : (Cursor.ofTokens tokens file).pending = before ++ t :: rest)
    (he : e.pending = t :: rest) (ht : t.kind ≠ .endOfFile) (more : List Token) (p : Program) :
    ofTokens (before ++ t :: more) file ≠ .ok p := by
  intro hp
  obtain ⟨more', hc'⟩ := Cursor.ofTokens_through before ht more file
  obtain ⟨hend, hid⟩ := Cursor.ofTokens_start tokens file
  obtain ⟨hend', hid'⟩ := Cursor.ofTokens_start (before ++ t :: more) file
  have hshared : Shared rest more' (before.length + 1) (.ofTokens tokens file)
      (.ofTokens (before ++ t :: more) file) :=
    ⟨⟨before ++ [t], by simp, by simp [hc], by simp [hc']⟩, hend'.trans hend.symm,
      hid'.trans hid.symm⟩
  have hlocal : Local rest more' (before.length + 1) (before.length + 1)
      (Parser.statements (Cursor.ofTokens tokens file).budget)
      (Parser.statements (Cursor.ofTokens (before ++ t :: more) file).budget) := by
    apply local_statements
    · simp [Cursor.budget, hc]
      omega
    · simp [Cursor.budget, hc']
      omega
  obtain ⟨-, hfails⟩ := (hlocal _ _ fun _ => ⟨_, hshared, rfl⟩).bad_of hrun
  obtain ⟨d', e', hrun'⟩ := hfails (by simp [Before, he])
  unfold ofTokens at hp
  rw [Parser.program, run_get_bind, run_bind_of_error hrun'] at hp
  cases hp

/-- A syntax fault is at the first token that cannot stand where it is. The tokens before it can
be gone on with to a program. The tokens up to it cannot, whatever follows; and where it is the
end, those before it are no program. -/
theorem ofTokens_error_first {source : String} (htokens : Token.ofSource source file = .ok tokens)
    (hd : ofTokens tokens file = .error d) (hnumber : ∀ text, d.cause ≠ .numberParseError text) :
    ∃ before t after, tokens = before ++ t :: after ∧ d.position = t.span.start ∧
      (∃ more eof p, (∀ u ∈ more, u.kind ≠ .endOfFile) ∧ eof.kind = .endOfFile ∧
        ofTokens (before ++ more ++ [eof]) file = .ok p) ∧
      (t.kind ≠ .endOfFile → ∀ more p, ofTokens (before ++ t :: more) file ≠ .ok p) ∧
      (t.kind = .endOfFile → after = [] ∧
        ∀ eof p, eof.kind = .endOfFile → ofTokens (before ++ [eof]) file ≠ .ok p) := by
  obtain ⟨words, eof, rfl, heof, hplain⟩ := Token.plain_of_scan htokens
  obtain ⟨e, hrun⟩ := ofTokens_eq_error hd
  have hstops := (statements_faults _ _ (Cursor.ofTokens_lexed heof hplain file)).bad_of hrun
  obtain ⟨before, hcovers, hread⟩ := hstops.read
  obtain ⟨-, more, q, hq⟩ := hread.resolve_left fun ⟨text, h⟩ => hnumber text h
  have hpending := hcovers.pending
  rw [Cursor.ofTokens_append words heof] at hpending
  have hviable : ∃ more eof p, (∀ u ∈ more, u.kind ≠ .endOfFile) ∧ eof.kind = .endOfFile ∧
      ofTokens (before ++ more ++ [eof]) file = .ok p := by
    obtain ⟨p, hp, -⟩ := @exists_ofTokens _ _ file heof _ hq
    exact ⟨more, eof, p, (unended_append.1 (hq ▸ q.unended)).2, heof, hp⟩
  cases he : e.pending with
  | nil =>
    have hfinal : e.current = eof := by
      rw [Cursor.current, he, hcovers.final]
      simp [Cursor.ofTokens, heof]
    rw [he, List.append_nil] at hpending
    subst hpending
    refine ⟨words, eof, [], rfl, ?_, hviable, fun h => absurd heof h, fun _ => ⟨rfl, ?_⟩⟩
    · rw [hstops.position, Cursor.position, hfinal]
    · intro eof' p heof' hp
      have hno : ∀ t ∈ words, t.kind ≠ .endOfFile := fun t ht => (hplain t ht).kind_ne
      obtain ⟨q', hq', -⟩ := exists_derivation heof' hno hp
      obtain ⟨p', hp', -⟩ := @exists_ofTokens _ _ file heof _ hq'
      cases hd.symm.trans hp'
  | cons t rest =>
    rw [he] at hpending
    have ht : t.kind ≠ .endOfFile := (hplain t (by simp [hpending])).kind_ne
    refine ⟨before, t, rest ++ [eof], by simp [hpending], ?_, hviable, fun _ => ?_,
      fun h => absurd h ht⟩
    · rw [hstops.position, Cursor.position, Cursor.current, he]
      rfl
    · exact ofTokens_ne_ok hrun (by rw [Cursor.ofTokens_append words heof, hpending]) he ht

/-- The brace comes where the statement has yet to end. -/
theorem exists_ofTokens_error_first :
    ∃ before t after, Token.ofSource "if a \x7b print b \x7d else" "demo" =
        .ok (before ++ t :: after) ∧ t.text = "\x7d" ∧
      ofTokens (before ++ t :: after) "demo" = .error ⟨.unexpectedToken "\x7d", t.span.start⟩ ∧
      (∃ more p, ofTokens (before ++ more) "demo" = .ok p) ∧
      ∀ more p, ofTokens (before ++ t :: more) "demo" ≠ .ok p := by
  have hparse : (Token.ofSource "if a \x7b print b \x7d else" "demo").toOption.map
      (fun tokens => (tokens.filter (·.span.start == ⟨15, "demo"⟩) |>.map Token.lexeme,
        (ofTokens tokens "demo").map fun _ => ())) =
      some ([(.closeCurly, "\x7d")], .error ⟨.unexpectedToken "\x7d", ⟨15, "demo"⟩⟩) := by
    decide +kernel
  obtain ⟨tokens, htokens, hpair⟩ := Option.map_eq_some_iff.1 hparse
  obtain ⟨hat, hfault⟩ := Prod.mk.inj hpair
  have htokens := toOption_eq_some.1 htokens
  have hd := map_eq_error.1 hfault
  obtain ⟨before, t, after, rfl, ht, ⟨more, eof, p, -, -, hp⟩, hnone, -⟩ :=
    ofTokens_error_first htokens hd nofun
  have hmem : t ∈ (before ++ t :: after).filter (·.span.start == ⟨15, "demo"⟩) := by
    simp [← ht]
  have hlexeme : t.lexeme ∈ [(Kind.closeCurly, "\x7d")] := by
    rw [← hat]
    exact List.mem_map_of_mem hmem
  rw [List.mem_singleton] at hlexeme
  obtain ⟨hkind, htext⟩ := Prod.mk.inj hlexeme
  refine ⟨before, t, after, htokens, htext, ht ▸ hd, ⟨more ++ [eof], p, ?_⟩, hnone ?_⟩
  · rwa [← List.append_assoc]
  · simp [hkind]

end Program

end Leveret
