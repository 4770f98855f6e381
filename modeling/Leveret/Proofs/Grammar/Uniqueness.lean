import Leveret.Proofs.Grammar.Completeness

/-!
# Derivations are unique

Two derivations of the same symbol that begin the same tokens are equal, provided that what
follows each of them cannot go on with it.
-/

namespace Leveret.Grammar

/-! ## Words -/

section Words

variable {tier : Tier}

theorem Operator.eq_of_token {o o' : Operator tier} (h : o.token = o'.token) : o = o' := by
  have hop := (of_mem_operators o.listed).2
  have hop' := (of_mem_operators o'.listed).2
  rw [h, hop', Option.some.injEq] at hop
  exact Operator.ext h hop.symm

theorem Sign.eq_of_token {s s' : Sign} (h : s.token = s'.token) : s = s' := by
  have hop := mem_signs.1 s.listed
  rw [h, mem_signs.1 s'.listed, Option.some.injEq] at hop
  exact Sign.ext h hop.symm

theorem Constant.eq_of_token {k k' : Constant} (h : k.token = k'.token) : k = k' := by
  have hv := k.spells
  rw [h, k'.spells, Option.some.injEq] at hv
  exact Constant.ext h hv.symm

theorem TypeWord.eq_of_token {w w' : TypeWord} (h : w.token = w'.token) : w = w' := by
  have hty := w.names
  rw [h, w'.names, Option.some.injEq] at hty
  exact TypeWord.ext h hty.symm

theorem typeTokens_unique {ty ty' : Option TypeWord} {equals equals' : Word .assignment}
    {rest rest' : List Token}
    (h : typeTokens ty ++ equals.token :: rest = typeTokens ty' ++ equals'.token :: rest') :
    ty = ty' ∧ equals = equals' ∧ rest = rest' := by
  have hne (w : TypeWord) (e : Word .assignment) : w.token ≠ e.token := by
    intro ht
    have hk := w.kind_eq
    rw [ht, e.kind_eq] at hk
    cases hk
  cases ty with
  | none =>
    cases ty' with
    | none =>
      obtain ⟨he, hr⟩ := List.cons.inj h
      exact ⟨rfl, Word.ext he, hr⟩
    | some w => exact absurd (List.cons.inj h).1.symm (hne w equals)
  | some w =>
    cases ty' with
    | none => exact absurd (List.cons.inj h).1 (hne w equals')
    | some w' =>
      obtain ⟨hw, h⟩ := List.cons.inj h
      obtain ⟨he, hr⟩ := List.cons.inj h
      exact ⟨congrArg some (TypeWord.eq_of_token hw), Word.ext he, hr⟩

theorem zero_ne_init {ty : TypeWord} {semicolon : Word .semicolon} {ty' : Option TypeWord}
    {equals : Word .assignment} {rest rest' : List Token} :
    ty.token :: semicolon.token :: rest ≠ typeTokens ty' ++ equals.token :: rest' := by
  intro h
  have hk := equals.kind_eq
  cases ty' with
  | none =>
    rw [← (List.cons.inj h).1, ty.kind_eq] at hk
    cases hk
  | some w =>
    rw [← (List.cons.inj (List.cons.inj h).2).1, semicolon.kind_eq] at hk
    cases hk

end Words

/-! ## The sorts of operands and sentences -/

/-- The kind of token that tells the sort of an operand. Signs count as one, and so do all
constants. -/
def operandMark : Kind → Kind
  | .plus | .dash => .plus
  | .identifier => .identifier
  | .openParen => .openParen
  | .openCurly => .openCurly
  | _ => .integer

def Phrase.mark {level : Level} : Phrase level → Kind
  | .chain first _ => first.mark
  | .signed .. => .plus
  | .unsigned operand => operand.mark
  | .constant _ => .integer
  | .name _ => .identifier
  | .group .. => .openParen
  | .compound _ => .openCurly

theorem Phrase.mark_eq {level : Level} : (p : Phrase level) → (rest : List Token) →
    p.mark = operandMark (headKind (p.tokens ++ rest))
  | .chain first more, rest => by
    rw [mark, tokens, List.append_assoc]
    exact first.mark_eq _
  | .signed sign operand, rest => by
    have hop := mem_signs.1 sign.listed
    change .plus = operandMark sign.token.kind
    cases hk : sign.token.kind <;> rw [hk] at hop <;> first | rfl | cases hop
  | .unsigned operand, rest => by
    rw [mark, tokens]
    exact operand.mark_eq rest
  | .constant k, rest => by
    have hv := k.spells
    change .integer = operandMark k.token.kind
    unfold Token.literal? at hv
    split at hv
    case h_5 => cases hv
    all_goals
      rename_i hk
      rw [hk]
      rfl
  | .name word, rest => by
    change _ = operandMark word.token.kind
    rw [word.kind_eq]
    rfl
  | .group opening inner closing, rest => by
    change _ = operandMark opening.token.kind
    rw [opening.kind_eq]
    rfl
  | .compound body, rest => by
    rw [tokens, body.head]
    rfl

/-- The kind of token that tells the sort of a sentence, from its first two tokens. -/
def markOf (first second : Kind) : Kind :=
  if first.startsStatement then first
  else if first = .identifier ∧ second = .assignment then .assignment
  else .semicolon

def Sentence.mark : Sentence → Kind
  | .varZero .. | .varInit .. => .varWord
  | .const .. => .constWord
  | .assign .. => .assignment
  | .print .. => .printWord
  | .conditional .. => .ifWord
  | .whileLoop .. => .whileWord
  | .breakLoop .. => .breakWord
  | .continueLoop .. => .continueWord
  | .expr .. => .semicolon

theorem Sentence.mark_eq (s : Sentence) (rest : List Token) :
    s.mark = markOf (headKind (s.tokens ++ rest)) (headKind (s.tokens ++ rest).tail) := by
  cases s with
  | varZero word | varInit word | const word | print word | whileLoop word | breakLoop word
  | continueLoop word =>
    change _ = markOf word.token.kind _
    rw [word.kind_eq]
    rfl
  | assign name equals =>
    change _ = markOf name.token.kind equals.token.kind
    rw [name.kind_eq, equals.kind_eq]
    rfl
  | conditional s =>
    obtain ⟨t, ts, htokens, hk⟩ := s.head
    rw [tokens, htokens]
    change _ = markOf t.kind _
    rw [hk]
    rfl
  | expr value semicolon =>
    obtain ⟨t, ts, htokens, hstart, hname⟩ := value.head
    rw [tokens, htokens]
    change _ = markOf t.kind (headKind (ts ++ [semicolon.token] ++ rest))
    rw [markOf, startsStatement_of_startsOperand hstart, if_neg Bool.false_ne_true, if_neg]
    · rfl
    · rintro ⟨hk, hnext⟩
      rw [List.append_assoc] at hnext
      exact hname hk _ (semicolon.ne_kind (by decide)) hnext

/-! ## Derivations -/

def Closes (rest : List Token) : Prop :=
  headKind rest = .closeCurly ∨ headKind rest = .endOfFile

theorem Closes.not_begins {rest : List Token} (h : Closes rest) : ¬ Begins (headKind rest) := by
  intro hb
  obtain ⟨-, hcurly, heof⟩ := hb.ne
  exact h.elim hcurly heof

theorem Closes.ne_else {rest : List Token} (h : Closes rest) : headKind rest ≠ .elseWord := by
  rcases h with h | h <;> rw [h] <;> decide

theorem Sentence.begins (s : Sentence) (rest : List Token) :
    Begins (headKind (s.tokens ++ rest)) := by
  obtain ⟨t, ts, htokens, hk⟩ := s.head
  rw [htokens]
  exact hk

theorem Chain.headKind_lt {tier : Tier} (chain : Chain tier) {rest : List Token}
    (h : (headKind rest).power.rank < tier.power.rank) :
    (headKind (chain.tokens ++ rest)).power.rank < tier.operands.rank :=
  Nat.lt_of_le_of_lt (chain.headKind_le (Nat.le_of_lt h)) (rank_lt_operands tier)

theorem Operator.not_lt {tier : Tier} (o : Operator tier) (rest : List Token) :
    ¬ (headKind (o.token :: rest)).power.rank < tier.power.rank := by
  rw [headKind_cons, operator_kind]
  exact Nat.lt_irrefl _

theorem Word.lt_any {kind : Kind} (word : Word kind) (h : kind.power = .lowest)
    {rest : List Token} : (headKind (word.token :: rest)).power.rank < Level.any.rank := by
  rw [headKind_cons, word.kind_eq, h]
  decide

theorem Conditional.headKind_eq (s : Conditional) (rest : List Token) :
    headKind (s.tokens ++ rest) = .ifWord := by
  obtain ⟨t, ts, htokens, hk⟩ := s.head
  rw [htokens]
  exact hk

theorem Sentence.eq_mark {s s' : Sentence} {rest rest' : List Token}
    (h : s.tokens ++ rest = s'.tokens ++ rest') : s.mark = s'.mark := by
  rw [s.mark_eq rest, h, ← s'.mark_eq]

theorem Phrase.eq_mark {level : Level} {p q : Phrase level} {rest rest' : List Token}
    (h : p.tokens ++ rest = q.tokens ++ rest') : p.mark = q.mark := by
  rw [p.mark_eq rest, h, ← q.mark_eq]

/-- Where nothing goes on with it, no other phrase begins the same tokens. -/
def Phrase.Unique {level : Level} (p : Phrase level) : Prop :=
  ∀ (q : Phrase level) {rest rest' : List Token}, (headKind rest).power.rank < level.rank →
    (headKind rest').power.rank < level.rank → p.tokens ++ rest = q.tokens ++ rest' →
    p = q ∧ rest = rest'

def Braces.Unique (b : Braces) : Prop :=
  ∀ (b' : Braces) {rest rest' : List Token}, b.tokens ++ rest = b'.tokens ++ rest' →
    b = b' ∧ rest = rest'

theorem Phrase.Unique.before {kind : Kind} {p q : Phrase .any} {word word' : Word kind}
    {rest rest' : List Token} (hp : p.Unique) (hk : kind.power = .lowest)
    (h : p.tokens ++ word.token :: rest = q.tokens ++ word'.token :: rest') :
    p = q ∧ word = word' ∧ rest = rest' := by
  obtain ⟨hq, hrest⟩ := hp q (word.lt_any hk) (word'.lt_any hk) h
  obtain ⟨hword, hrest⟩ := List.cons.inj hrest
  exact ⟨hq, Word.ext hword, hrest⟩

theorem unique_guarded {kind : Kind} {word word' : Word kind} {p q : Phrase .any} {b b' : Braces}
    {rest rest' : List Token} (hp : p.Unique) (hb : b.Unique)
    (h : word.token :: (p.tokens ++ (b.tokens ++ rest)) =
      word'.token :: (q.tokens ++ (b'.tokens ++ rest'))) :
    word = word' ∧ p = q ∧ b = b' ∧ rest = rest' := by
  obtain ⟨hword, h⟩ := List.cons.inj h
  have hany (b : Braces) (rest : List Token) :
      (headKind (b.tokens ++ rest)).power.rank < Level.any.rank := by
    rw [b.head]
    decide
  obtain ⟨hq, h⟩ := hp q (hany b rest) (hany b' rest') h
  obtain ⟨hb', h⟩ := hb b' h
  exact ⟨Word.ext hword, hq, hb', h⟩

mutual

theorem Phrase.unique {level : Level} : (p : Phrase level) → p.Unique
  | .chain first more => by
    rintro ⟨first', more'⟩ rest rest' hr hr' h
    rw [Phrase.tokens, Phrase.tokens, List.append_assoc, List.append_assoc] at h
    obtain ⟨rfl, ht⟩ := first.unique first' (more.headKind_lt hr) (more'.headKind_lt hr') h
    obtain ⟨rfl, rfl⟩ := more.unique more' hr hr' ht
    exact ⟨rfl, rfl⟩
  | .signed sign operand => by
    intro q rest rest' hr hr' h
    have hm := Phrase.eq_mark h
    cases q with
    | signed sign' operand' =>
      obtain ⟨hs, h⟩ := List.cons.inj h
      obtain ⟨rfl, rfl⟩ := operand.unique operand' hr hr' h
      exact ⟨by rw [Sign.eq_of_token hs], rfl⟩
    | unsigned operand' => cases operand' <;> cases hm
  | .unsigned operand => by
    intro q rest rest' hr hr' h
    have hm := Phrase.eq_mark h
    cases q with
    | signed => cases operand <;> cases hm
    | unsigned operand' =>
      obtain ⟨rfl, rfl⟩ :=
        operand.unique operand' (Nat.lt_succ_of_lt hr) (Nat.lt_succ_of_lt hr') h
      exact ⟨rfl, rfl⟩
  | .constant k => by
    intro q rest rest' hr hr' h
    have hm := Phrase.eq_mark h
    cases q with
    | constant k' =>
      obtain ⟨hk, rfl⟩ := List.cons.inj h
      exact ⟨by rw [Constant.eq_of_token hk], rfl⟩
    | name | group | compound => cases hm
  | .name word => by
    intro q rest rest' hr hr' h
    have hm := Phrase.eq_mark h
    cases q with
    | name word' =>
      obtain ⟨hw, rfl⟩ := List.cons.inj h
      exact ⟨by rw [Word.ext hw], rfl⟩
    | constant | group | compound => cases hm
  | .group opening inner closing => by
    intro q rest rest' hr hr' h
    have hm := Phrase.eq_mark h
    cases q with
    | group opening' inner' closing' =>
      simp only [Phrase.tokens, List.cons_append, List.append_assoc, List.nil_append] at h
      obtain ⟨ho, h⟩ := List.cons.inj h
      obtain ⟨rfl, rfl, rfl⟩ := inner.unique.before rfl h
      exact ⟨by rw [Word.ext ho], rfl⟩
    | constant | name | compound => cases hm
  | .compound body => by
    intro q rest rest' hr hr' h
    have hm := Phrase.eq_mark h
    cases q with
    | compound body' =>
      obtain ⟨rfl, rfl⟩ := body.unique body' h
      exact ⟨rfl, rfl⟩
    | constant | name | group => cases hm
termination_by structural d => d

theorem Chain.unique {tier : Tier} : (chain chain' : Chain tier) → ∀ {rest rest' : List Token},
    (headKind rest).power.rank < tier.power.rank → (headKind rest').power.rank < tier.power.rank →
    chain.tokens ++ rest = chain'.tokens ++ rest' → chain = chain' ∧ rest = rest'
  | .nil, .nil, rest, rest', hr, hr', h => ⟨rfl, h⟩
  | .nil, .cons operator operand more, rest, rest', hr, hr', h => by
    have hrest : rest = _ := h
    rw [hrest] at hr
    exact absurd hr (operator.not_lt _)
  | .cons operator operand more, .nil, rest, rest', hr, hr', h => by
    have hrest : rest' = _ := h.symm
    rw [hrest] at hr'
    exact absurd hr' (operator.not_lt _)
  | .cons operator operand more, .cons operator' operand' more', rest, rest', hr, hr', h => by
    simp only [Chain.tokens, List.cons_append, List.append_assoc] at h
    obtain ⟨ho, h⟩ := List.cons.inj h
    obtain ⟨rfl, ht⟩ := operand.unique operand' (more.headKind_lt hr) (more'.headKind_lt hr') h
    obtain ⟨rfl, rfl⟩ := more.unique more' hr hr' ht
    exact ⟨by rw [Operator.eq_of_token ho], rfl⟩
termination_by structural d => d

theorem Braces.unique : (b : Braces) → b.Unique
  | .mk opening inside closing => by
    rintro ⟨opening', inside', closing'⟩ rest rest' h
    simp only [Braces.tokens, List.cons_append, List.append_assoc, List.nil_append] at h
    obtain ⟨ho, h⟩ := List.cons.inj h
    have hcloses (word : Word .closeCurly) (rest : List Token) : Closes (word.token :: rest) :=
      .inl word.kind_eq
    obtain ⟨rfl, ht⟩ := inside.unique inside' (hcloses closing rest) (hcloses closing' rest') h
    obtain ⟨hc, rfl⟩ := List.cons.inj ht
    exact ⟨by rw [Word.ext ho, Word.ext hc], rfl⟩
termination_by structural d => d

theorem Conditional.unique : (s s' : Conditional) → ∀ {rest rest' : List Token},
    headKind rest ≠ .elseWord → headKind rest' ≠ .elseWord →
    s.tokens ++ rest = s'.tokens ++ rest' → s = s' ∧ rest = rest'
  | .only word test consequence, s', rest, rest', hr, hr', h => by
    cases s' with
    | only word' test' consequence' =>
      simp only [Conditional.tokens, List.cons_append, List.append_assoc] at h
      obtain ⟨rfl, rfl, rfl, rfl⟩ := unique_guarded test.unique consequence.unique h
      exact ⟨rfl, rfl⟩
    | otherwise _ _ _ word' | elseIf _ _ _ word' =>
      simp only [Conditional.tokens, List.cons_append, List.append_assoc] at h
      obtain ⟨-, -, -, ht⟩ := unique_guarded test.unique consequence.unique h
      rw [ht] at hr
      exact absurd word'.kind_eq hr
  | .otherwise word test consequence word' alternative, s', rest, rest', hr, hr', h => by
    cases s' with
    | only =>
      simp only [Conditional.tokens, List.cons_append, List.append_assoc] at h
      obtain ⟨-, -, -, ht⟩ := unique_guarded test.unique consequence.unique h
      rw [← ht] at hr'
      exact absurd word'.kind_eq hr'
    | otherwise _ _ _ _ alternative' =>
      simp only [Conditional.tokens, List.cons_append, List.append_assoc] at h
      obtain ⟨rfl, rfl, rfl, ht⟩ := unique_guarded test.unique consequence.unique h
      obtain ⟨hw, ht⟩ := List.cons.inj ht
      obtain ⟨rfl, rfl⟩ := alternative.unique alternative' ht
      exact ⟨by rw [Word.ext hw], rfl⟩
    | elseIf _ _ _ _ alternative' =>
      simp only [Conditional.tokens, List.cons_append, List.append_assoc] at h
      obtain ⟨-, -, -, ht⟩ := unique_guarded test.unique consequence.unique h
      have hk := congrArg headKind (List.cons.inj ht).2
      rw [alternative.head, alternative'.headKind_eq] at hk
      cases hk
  | .elseIf word test consequence word' alternative, s', rest, rest', hr, hr', h => by
    cases s' with
    | only =>
      simp only [Conditional.tokens, List.cons_append, List.append_assoc] at h
      obtain ⟨-, -, -, ht⟩ := unique_guarded test.unique consequence.unique h
      rw [← ht] at hr'
      exact absurd word'.kind_eq hr'
    | otherwise _ _ _ _ alternative' =>
      simp only [Conditional.tokens, List.cons_append, List.append_assoc] at h
      obtain ⟨-, -, -, ht⟩ := unique_guarded test.unique consequence.unique h
      have hk := congrArg headKind (List.cons.inj ht).2
      rw [alternative.headKind_eq, alternative'.head] at hk
      cases hk
    | elseIf _ _ _ _ alternative' =>
      simp only [Conditional.tokens, List.cons_append, List.append_assoc] at h
      obtain ⟨rfl, rfl, rfl, ht⟩ := unique_guarded test.unique consequence.unique h
      obtain ⟨hw, ht⟩ := List.cons.inj ht
      obtain ⟨rfl, rfl⟩ := alternative.unique alternative' hr hr' ht
      exact ⟨by rw [Word.ext hw], rfl⟩
termination_by structural d => d

theorem Sentence.unique : (s s' : Sentence) → ∀ {rest rest' : List Token},
    headKind rest ≠ .elseWord → headKind rest' ≠ .elseWord →
    s.tokens ++ rest = s'.tokens ++ rest' → s = s' ∧ rest = rest'
  | .varZero word name ty semicolon, s', rest, rest', hr, hr', h => by
    have hm := Sentence.eq_mark h
    cases s' with
    | varZero word' name' ty' semicolon' =>
      obtain ⟨hword, h⟩ := List.cons.inj h
      obtain ⟨hname, h⟩ := List.cons.inj h
      obtain ⟨hty, h⟩ := List.cons.inj h
      obtain ⟨hsemicolon, rfl⟩ := List.cons.inj h
      exact ⟨by rw [Word.ext hword, Word.ext hname, TypeWord.eq_of_token hty,
        Word.ext hsemicolon], rfl⟩
    | varInit =>
      simp only [Sentence.tokens, List.cons_append, List.append_assoc, List.nil_append] at h
      exact absurd (List.cons.inj (List.cons.inj h).2).2 zero_ne_init
    | _ => cases hm
  | .varInit word name ty equals init semicolon, s', rest, rest', hr, hr', h => by
    have hm := Sentence.eq_mark h
    cases s' with
    | varInit word' name' ty' equals' init' semicolon' =>
      simp only [Sentence.tokens, List.cons_append, List.append_assoc, List.nil_append] at h
      obtain ⟨hword, h⟩ := List.cons.inj h
      obtain ⟨hname, h⟩ := List.cons.inj h
      obtain ⟨rfl, rfl, ht⟩ := typeTokens_unique h
      obtain ⟨rfl, rfl, rfl⟩ := init.unique.before rfl ht
      exact ⟨by rw [Word.ext hword, Word.ext hname], rfl⟩
    | varZero =>
      simp only [Sentence.tokens, List.cons_append, List.append_assoc, List.nil_append] at h
      exact absurd (List.cons.inj (List.cons.inj h).2).2.symm zero_ne_init
    | _ => cases hm
  | .const word name ty equals init semicolon, s', rest, rest', hr, hr', h => by
    have hm := Sentence.eq_mark h
    cases s' with
    | const word' name' ty' equals' init' semicolon' =>
      simp only [Sentence.tokens, List.cons_append, List.append_assoc, List.nil_append] at h
      obtain ⟨hword, h⟩ := List.cons.inj h
      obtain ⟨hname, h⟩ := List.cons.inj h
      obtain ⟨rfl, rfl, ht⟩ := typeTokens_unique h
      obtain ⟨rfl, rfl, rfl⟩ := init.unique.before rfl ht
      exact ⟨by rw [Word.ext hword, Word.ext hname], rfl⟩
    | _ => cases hm
  | .assign name equals value semicolon, s', rest, rest', hr, hr', h => by
    have hm := Sentence.eq_mark h
    cases s' with
    | assign name' equals' value' semicolon' =>
      simp only [Sentence.tokens, List.cons_append, List.append_assoc, List.nil_append] at h
      obtain ⟨hname, h⟩ := List.cons.inj h
      obtain ⟨hequals, h⟩ := List.cons.inj h
      obtain ⟨rfl, rfl, rfl⟩ := value.unique.before rfl h
      exact ⟨by rw [Word.ext hname, Word.ext hequals], rfl⟩
    | _ => cases hm
  | .print word value semicolon, s', rest, rest', hr, hr', h => by
    have hm := Sentence.eq_mark h
    cases s' with
    | print word' value' semicolon' =>
      simp only [Sentence.tokens, List.cons_append, List.append_assoc, List.nil_append] at h
      obtain ⟨hword, h⟩ := List.cons.inj h
      obtain ⟨rfl, rfl, rfl⟩ := value.unique.before rfl h
      exact ⟨by rw [Word.ext hword], rfl⟩
    | _ => cases hm
  | .conditional s, s', rest, rest', hr, hr', h => by
    have hm := Sentence.eq_mark h
    cases s' with
    | conditional s' =>
      obtain ⟨rfl, rfl⟩ := s.unique s' hr hr' h
      exact ⟨rfl, rfl⟩
    | _ => cases hm
  | .whileLoop word test body, s', rest, rest', hr, hr', h => by
    have hm := Sentence.eq_mark h
    cases s' with
    | whileLoop word' test' body' =>
      simp only [Sentence.tokens, List.cons_append, List.append_assoc] at h
      obtain ⟨rfl, rfl, rfl, rfl⟩ := unique_guarded test.unique body.unique h
      exact ⟨rfl, rfl⟩
    | _ => cases hm
  | .breakLoop word semicolon, s', rest, rest', hr, hr', h => by
    have hm := Sentence.eq_mark h
    cases s' with
    | breakLoop word' semicolon' =>
      obtain ⟨hword, h⟩ := List.cons.inj h
      obtain ⟨hsemicolon, rfl⟩ := List.cons.inj h
      exact ⟨by rw [Word.ext hword, Word.ext hsemicolon], rfl⟩
    | _ => cases hm
  | .continueLoop word semicolon, s', rest, rest', hr, hr', h => by
    have hm := Sentence.eq_mark h
    cases s' with
    | continueLoop word' semicolon' =>
      obtain ⟨hword, h⟩ := List.cons.inj h
      obtain ⟨hsemicolon, rfl⟩ := List.cons.inj h
      exact ⟨by rw [Word.ext hword, Word.ext hsemicolon], rfl⟩
    | _ => cases hm
  | .expr value semicolon, s', rest, rest', hr, hr', h => by
    have hm := Sentence.eq_mark h
    cases s' with
    | expr value' semicolon' =>
      simp only [Sentence.tokens, List.append_assoc] at h
      obtain ⟨rfl, rfl, rfl⟩ := value.unique.before rfl h
      exact ⟨rfl, rfl⟩
    | _ => cases hm
termination_by structural d => d

theorem Sentences.unique : (p q : Sentences) → ∀ {rest rest' : List Token},
    Closes rest → Closes rest' → p.tokens ++ rest = q.tokens ++ rest' → p = q ∧ rest = rest'
  | .nil, .nil, rest, rest', hr, hr', h => ⟨rfl, h⟩
  | .nil, .cons s q, rest, rest', hr, hr', h => by
    have hrest : rest = s.tokens ++ q.tokens ++ rest' := h
    rw [List.append_assoc] at hrest
    exact absurd (s.begins _) (hrest ▸ hr.not_begins)
  | .cons s p, .nil, rest, rest', hr, hr', h => by
    have hrest : s.tokens ++ p.tokens ++ rest = rest' := h
    rw [List.append_assoc] at hrest
    exact absurd (s.begins _) (hrest ▸ hr'.not_begins)
  | .cons s p, .cons s' q, rest, rest', hr, hr', h => by
    rw [Sentences.tokens, Sentences.tokens, List.append_assoc, List.append_assoc] at h
    obtain ⟨rfl, ht⟩ := s.unique s' (p.headKind_ne hr.ne_else) (q.headKind_ne hr'.ne_else) h
    obtain ⟨rfl, rfl⟩ := p.unique q hr hr' ht
    exact ⟨rfl, rfl⟩
termination_by structural d => d

end

end Leveret.Grammar
