import Leveret.Proofs.Grammar.Soundness

/-!
# What is derived is read

The parser reads every derivation of the grammar. It decides by the next token alone, so what
follows a phrase must not go on with it: `headKind` is the kind of token that follows.
-/

namespace Leveret.Grammar

open Leveret.Parser (Goal Piece Reads ReadsType)

/-! ## The next token -/

def headKind (tokens : List Token) : Kind := (tokens.head?.map (·.kind)).getD .endOfFile

@[simp]
theorem headKind_nil : headKind [] = .endOfFile := rfl

@[simp]
theorem headKind_cons (t : Token) (rest : List Token) : headKind (t :: rest) = t.kind := rfl

section Cursor

variable {c : Cursor} {t : Token} {rest : List Token}

theorem kind_eq_headKind (hc : c.Closed) : c.kind = headKind c.pending := by
  rw [Cursor.kind, Cursor.current]
  cases c.pending with
  | nil => exact hc
  | cons t rest => rfl

theorem nextKind_eq_headKind (hc : c.Closed) : c.nextKind = headKind c.pending.tail := by
  rw [Cursor.nextKind]
  cases c.pending.tail with
  | nil => exact hc
  | cons t rest => rfl

theorem exists_next (hc : c.Closed) (h : c.pending = t :: rest) :
    ∃ d, c.Next t d ∧ d.pending = rest ∧ d.Closed := by
  have hrest : c.advance.pending = rest := by simp [Cursor.advance, h]
  have hn : c.Next t c.advance := ⟨by rw [h, hrest], rfl⟩
  exact ⟨c.advance, hn, hrest, hn.closed hc⟩

end Cursor

def Begins (kind : Kind) : Prop := kind.startsOperand = true ∨ kind.startsStatement = true

theorem Begins.ne {kind : Kind} (h : Begins kind) :
    kind ≠ .elseWord ∧ kind ≠ .closeCurly ∧ kind ≠ .endOfFile := by
  rcases h with h | h <;> refine ⟨?_, ?_, ?_⟩ <;> rintro rfl <;> cases h

theorem startsStatement_of_startsOperand {kind : Kind} (h : kind.startsOperand = true) :
    kind.startsStatement = false := by
  cases kind <;> first | rfl | cases h

theorem literal?_startsOperand {t : Token} {value : Value} (h : t.literal? = some value) :
    t.kind.startsOperand = true ∧ t.kind ≠ .identifier := by
  unfold Token.literal? at h
  split at h
  case h_5 => cases h
  all_goals
    rename_i hk
    rw [hk]
    exact ⟨rfl, by decide⟩

theorem Word.ne_kind {kind kind' : Kind} (word : Word kind) (h : kind ≠ kind') {rest : List Token} :
    headKind (word.token :: rest) ≠ kind' := by
  rw [headKind_cons, word.kind_eq]
  exact h

theorem Word.lowest (semicolon : Word .semicolon) {rest : List Token} :
    (headKind (semicolon.token :: rest)).power = .lowest := by
  rw [headKind_cons, semicolon.kind_eq]
  rfl

theorem operator_kind {tier : Tier} (o : Operator tier) : o.token.kind.power = tier.power :=
  (of_mem_operators o.listed).1

theorem operator_ne {tier : Tier} (o : Operator tier) : o.token.kind ≠ .assignment := by
  intro hk
  have h := operator_kind o
  rw [hk] at h
  cases tier <;> cases h

theorem Chain.headKind_ne {tier : Tier} (chain : Chain tier) {rest : List Token}
    (h : headKind rest ≠ .assignment) : headKind (chain.tokens ++ rest) ≠ .assignment := by
  cases chain with
  | nil => exact h
  | cons operator => exact operator_ne operator

theorem Chain.headKind_le {tier : Tier} (chain : Chain tier) {rest : List Token}
    (h : (headKind rest).power.rank ≤ tier.power.rank) :
    (headKind (chain.tokens ++ rest)).power.rank ≤ tier.power.rank := by
  cases chain with
  | nil => exact h
  | cons operator => exact Nat.le_of_eq (congrArg Power.rank (operator_kind operator))

theorem Phrase.head {level : Level} : (p : Phrase level) →
    ∃ t ts, p.tokens = t :: ts ∧ t.kind.startsOperand = true ∧
      (t.kind = .identifier → ∀ rest, headKind rest ≠ .assignment →
        headKind (ts ++ rest) ≠ .assignment)
  | .chain first more => by
    obtain ⟨t, ts, htokens, hstart, hname⟩ := first.head
    refine ⟨t, ts ++ more.tokens, by rw [tokens, htokens, List.cons_append], hstart, ?_⟩
    intro hk rest hrest
    rw [List.append_assoc]
    exact hname hk _ (more.headKind_ne hrest)
  | .signed sign operand => by
    have hk := mem_signs.1 sign.listed
    refine ⟨sign.token, operand.tokens, by rw [tokens], ?_, ?_⟩
    · cases hs : sign.token.kind <;> rw [hs] at hk <;> first | rfl | cases hk
    · intro hs
      rw [hs] at hk
      cases hk
  | .unsigned operand => by
    rw [tokens]
    exact operand.head
  | .constant k => by
    obtain ⟨hstart, hne⟩ := literal?_startsOperand k.spells
    exact ⟨k.token, [], by rw [tokens], hstart, fun hk => absurd hk hne⟩
  | .name word =>
    ⟨word.token, [], by rw [tokens], by rw [word.kind_eq]; rfl, fun _ _ hrest => hrest⟩
  | .group opening inner closing =>
    ⟨opening.token, inner.tokens ++ [closing.token], by rw [tokens, List.cons_append],
      by rw [opening.kind_eq]; rfl, fun hk => by rw [opening.kind_eq] at hk; cases hk⟩
  | .compound (.mk opening inside closing) =>
    ⟨opening.token, inside.tokens ++ [closing.token], by rw [tokens, Braces.tokens, List.cons_append],
      by rw [opening.kind_eq]; rfl, fun hk => by rw [opening.kind_eq] at hk; cases hk⟩

theorem Conditional.head (s : Conditional) : ∃ t ts, s.tokens = t :: ts ∧ t.kind = .ifWord := by
  cases s with
  | only word | otherwise word | elseIf word =>
    exact ⟨word.token, _, rfl, word.kind_eq⟩

theorem Sentence.head (s : Sentence) : ∃ t ts, s.tokens = t :: ts ∧ Begins t.kind := by
  cases s with
  | varZero word | varInit word | const word | print word | whileLoop word | breakLoop word
  | continueLoop word =>
    exact ⟨word.token, _, rfl, .inr (by rw [word.kind_eq]; rfl)⟩
  | assign name => exact ⟨name.token, _, rfl, .inl (by rw [name.kind_eq]; rfl)⟩
  | conditional s =>
    obtain ⟨t, ts, htokens, hk⟩ := s.head
    exact ⟨t, ts, by rw [tokens, htokens], .inr (by rw [hk]; rfl)⟩
  | expr value semicolon =>
    obtain ⟨t, ts, htokens, hk, -⟩ := value.head
    exact ⟨t, _, by rw [tokens, htokens]; rfl, .inl hk⟩

theorem Sentence.kind_ne (s : Sentence) {c : Cursor} {rest : List Token} (hc : c.Closed)
    (hp : c.pending = s.tokens ++ rest) : c.kind ≠ .closeCurly ∧ c.kind ≠ .endOfFile := by
  obtain ⟨t, ts, htokens, hk⟩ := s.head
  rw [kind_eq_headKind hc, hp, htokens]
  exact hk.ne.2

theorem Sentences.headKind_ne (p : Sentences) {rest : List Token}
    (h : headKind rest ≠ .elseWord) : headKind (p.tokens ++ rest) ≠ .elseWord := by
  cases p with
  | nil => exact h
  | cons s p =>
    obtain ⟨t, ts, htokens, hk⟩ := s.head
    rw [tokens, htokens]
    exact hk.ne.1

/-! ## Expressions -/

/-- The parser reads what it is asked for up to `rest`, and it stands for `tree`. -/
def Accepts {α : Type} (g : Goal) (piece : α → Piece) (outline : α → α) (c : Cursor) (tree : α)
    (rest : List Token) : Prop :=
  ∃ a d, Reads g c (piece a) d ∧ outline a = tree ∧ d.pending = rest

/-- An operand that is read at `c` may be taken for what is read up to `d`. -/
def Continues (power : Power) (c : Cursor) (left : Expr) (d : Cursor) (e : Expr) : Prop :=
  ∀ e' c', Reads (.extend power e) d (.expr e') c' → Reads (.extend power left) c (.expr e') c'

/-- From an operand on, the parser comes to `rest` with what stands for `tree`. -/
def Extends (power : Power) (c : Cursor) (left tree : Expr) (rest : List Token) : Prop :=
  ∃ e d, Continues power c left d e ∧ e.outline = tree ∧ d.pending = rest ∧ d.Closed

def Leads (power : Power) (c : Cursor) (tree : Expr) (rest : List Token) : Prop :=
  ∃ left d, Reads .operand c (.expr left) d ∧ Extends power d left tree rest

section Expressions

variable {power : Power} {c d : Cursor} {left e tree : Expr} {rest : List Token}

theorem Leads.of_operand (h : Reads .operand c (.expr e) d) (hc : c.Closed)
    (htree : e.outline = tree) (hrest : d.pending = rest) : Leads power c tree rest :=
  ⟨e, d, h, e, d, fun _ _ hmore => hmore, htree, hrest, h.closed hc⟩

theorem Leads.accepts (h : Leads power c tree rest)
    (hrest : (headKind rest).power.rank ≤ power.rank) :
    Accepts (.expr power) .expr Expr.outline c tree rest := by
  obtain ⟨left, d, hleft, e, d', hcont, htree, hpending, hclosed⟩ := h
  have hstop : ¬ power < d'.kind.power := by
    rw [kind_eq_headKind hclosed, hpending]
    exact Nat.not_lt_of_le hrest
  exact ⟨e, d', .expr hleft (hcont _ _ (.stop hstop)), htree, hpending⟩

end Expressions

/-- The type in a declaration is read where no other type can follow. -/
theorem readsType_typeTokens {c : Cursor} {ty : Option TypeWord} {rest : List Token}
    (hc : c.Closed) (hp : c.pending = typeTokens ty ++ rest) (hrest : headKind rest ≠ .typeName) :
    ∃ d, ReadsType c (ty.map (·.ty)) d ∧ d.pending = rest ∧ d.Closed := by
  cases ty with
  | none =>
    refine ⟨c, .missing ?_, hp, hc⟩
    rw [kind_eq_headKind hc, hp]
    exact hrest
  | some word =>
    obtain ⟨d, hn, hd, hclosed⟩ := exists_next hc hp
    exact ⟨d, .stated hn word.kind_eq word.names, hd, hclosed⟩

theorem Braces.head (b : Braces) (rest : List Token) :
    headKind (b.tokens ++ rest) = .openCurly := by
  cases b with
  | mk opening => exact opening.kind_eq

/-- Wherever the phrase stands and nothing goes on with it, the parser reads it. -/
def Phrase.Read {level : Level} (p : Phrase level) : Prop :=
  ∀ power c rest, power.rank < level.rank → (headKind rest).power.rank ≤ level.rank → c.Closed →
    c.pending = p.tokens ++ rest → Leads power c p.tree rest

theorem Phrase.Read.any {p : Phrase .any} (h : p.Read) {c : Cursor} {rest : List Token}
    (hrest : (headKind rest).power = .lowest) (hc : c.Closed)
    (hp : c.pending = p.tokens ++ rest) :
    ∃ e d, Reads (.expr .lowest) c (.expr e) d ∧ e.outline = p.tree ∧ d.pending = rest ∧
      d.Closed := by
  have hle := Nat.le_of_eq (congrArg Power.rank hrest)
  obtain ⟨e, d, he, htree, hd⟩ :=
    (h .lowest c rest (by decide) (Nat.le_succ_of_le hle) hc hp).accepts hle
  exact ⟨e, d, he, htree, hd, he.closed hc⟩

def Braces.Read (b : Braces) : Prop :=
  ∀ c rest, c.Closed → c.pending = b.tokens ++ rest →
    ∃ b' d, Reads .block c (.block b') d ∧ b'.outline = b.tree ∧ d.pending = rest ∧ d.Closed

mutual

theorem Phrase.read {level : Level} : (p : Phrase level) → p.Read
  | @Phrase.chain tier first more => by
    intro power c rest hpower hrest hc hp
    rw [Phrase.tokens, List.append_assoc] at hp
    have hop := rank_lt_operands tier
    have hmore := Nat.lt_of_le_of_lt (more.headKind_le hrest) hop
    obtain ⟨left, d, hleft, e, d', hcont, htree, hd', hclosed⟩ :=
      first.read power c _ (Nat.lt_trans hpower hop) (Nat.le_of_lt hmore) hc hp
    obtain ⟨e', c', hcont', htree', hc', hclosed'⟩ := more.extends hpower hrest hclosed hd' e
    refine ⟨left, d, hleft, e', c', fun _ _ h => hcont _ _ (hcont' _ _ h), ?_, hc', hclosed'⟩
    rw [htree', htree, Phrase.tree]
  | .signed sign operand => by
    intro power c rest hpower hrest hc hp
    rw [Phrase.tokens] at hp
    obtain ⟨d, hn, hd, hclosed⟩ := exists_next hc hp
    have hstop : (headKind rest).power.rank ≤ Power.unary.rank := by
      cases headKind rest <;> decide
    obtain ⟨e, d', he, htree, hd'⟩ :=
      (operand.read .unary d rest (power_rank_lt .unary) hrest hclosed hd).accepts hstop
    exact .of_operand (.signed hn (mem_signs.1 sign.listed) he) hc
      (by rw [Expr.outline, htree, Phrase.tree]) hd'
  | .unsigned operand => by
    intro power c rest hpower hrest hc hp
    rw [Phrase.tokens] at hp
    rw [Phrase.tree]
    exact operand.read power c rest (Nat.lt_succ_of_lt hpower) (Nat.le_succ_of_le hrest) hc hp
  | .constant k => by
    intro power c rest hpower hrest hc hp
    obtain ⟨d, hn, hd, -⟩ := exists_next hc hp
    exact .of_operand (.literal hn k.spells) hc rfl hd
  | .name word => by
    intro power c rest hpower hrest hc hp
    obtain ⟨d, hn, hd, -⟩ := exists_next hc hp
    exact .of_operand (.name hn word.kind_eq) hc rfl hd
  | .group opening inner closing => by
    intro power c rest hpower hrest hc hp
    simp only [Phrase.tokens, List.cons_append, List.append_assoc, List.nil_append] at hp
    obtain ⟨d, hn, hd, hclosed⟩ := exists_next hc hp
    have hclose : headKind (closing.token :: rest) = .closeParen := closing.kind_eq
    obtain ⟨e, d', he, htree, hd', hclosed'⟩ := inner.read.any (by rw [hclose]; rfl) hclosed hd
    obtain ⟨c', hn', hc', -⟩ := exists_next hclosed' hd'
    exact .of_operand (.group hn opening.kind_eq he hn' closing.kind_eq) hc
      (by rw [htree, Phrase.tree]) hc'
  | .compound body => by
    intro power c rest hpower hrest hc hp
    rw [Phrase.tokens] at hp
    obtain ⟨b, d, hb, htree, hd, -⟩ := body.read c rest hc hp
    have hk : c.kind = .openCurly := by rw [kind_eq_headKind hc, hp, body.head]
    exact .of_operand (.compound hk hb) hc (by rw [Expr.outline, htree, Phrase.tree]) hd

theorem Chain.extends {tier : Tier} : (chain : Chain tier) → ∀ {power c rest},
    power.rank < tier.power.rank → (headKind rest).power.rank ≤ tier.power.rank → c.Closed →
    c.pending = chain.tokens ++ rest → ∀ left,
    Extends power c left (chain.tree left.outline) rest
  | .nil, power, c, rest, _, _, hc, hp, left =>
    ⟨left, c, fun _ _ h => h, rfl, hp, hc⟩
  | .cons operator operand more, power, c, rest, hpower, hrest, hc, hp, left => by
    obtain ⟨hk, hop⟩ := of_mem_operators operator.listed
    simp only [Chain.tokens, List.cons_append, List.append_assoc] at hp
    obtain ⟨d, hn, hd, hclosed⟩ := exists_next hc hp
    have hless := rank_lt_operands tier
    have hmore := more.headKind_le hrest
    -- the right operand ends where the next operator of the tier stands
    obtain ⟨right, d', hright, htree, hd'⟩ := (operand.read tier.power d _ hless
      (Nat.le_of_lt (Nat.lt_of_le_of_lt hmore hless)) hclosed hd).accepts hmore
    rw [← hk] at hright
    let joined := Expr.binary ⟨d'.nextId, ⟨left.node.span.start, right.node.span.stop⟩⟩
      operator.op left right
    obtain ⟨e, c', hcont, htree', hc', hclosed'⟩ :=
      more.extends (c := d'.tick) hpower hrest (hright.closed hclosed) hd' joined
    refine ⟨e, c', fun e' c'' h => ?_, ?_, hc', hclosed'⟩
    · exact .join (by rw [hk]; exact hpower) hn hop hright (hcont e' c'' h)
    · rw [htree', Expr.outline, htree, Chain.tree]

theorem Braces.read : (b : Braces) → b.Read
  | .mk opening inside closing => by
    intro c rest hc hp
    simp only [Braces.tokens, List.cons_append, List.append_assoc, List.nil_append] at hp
    obtain ⟨d, hn, hd, hclosed⟩ := exists_next hc hp
    have hclose : headKind (closing.token :: rest) = .closeCurly := closing.kind_eq
    obtain ⟨list, d', hlist, htree, hd'⟩ := inside.accepts hclose hclosed hd
    obtain ⟨c', hn', hc', hclosed'⟩ := exists_next (hlist.closed hclosed) hd'
    exact ⟨_, c', .block hn opening.kind_eq hlist hn' closing.kind_eq,
      by rw [Block.outline, htree, Braces.tree], hc', hclosed'⟩

theorem Conditional.accepts : (s : Conditional) → ∀ {c rest}, headKind rest ≠ .elseWord →
    c.Closed → c.pending = s.tokens ++ rest →
    Accepts .conditional .stmt Stmt.outline c s.tree rest
  | .only word test consequence, c, rest, hrest, hc, hp => by
    simp only [Conditional.tokens, List.cons_append, List.append_assoc] at hp
    obtain ⟨c₁, hn, h₁, hc₁⟩ := exists_next hc hp
    obtain ⟨e, c₂, he, htree, h₂, hc₂⟩ := test.read.any (by rw [consequence.head]; rfl) hc₁ h₁
    obtain ⟨b, c₃, hb, hbtree, h₃, hc₃⟩ := consequence.read c₂ rest hc₂ h₂
    refine ⟨_, _, .ifOnly hn word.kind_eq he hb ?_, ?_, h₃⟩
    · rw [kind_eq_headKind hc₃, h₃]
      exact hrest
    · rw [Stmt.outline, outlineElse, htree, hbtree, Conditional.tree]
  | .otherwise word test consequence word' alternative, c, rest, hrest, hc, hp => by
    simp only [Conditional.tokens, List.cons_append, List.append_assoc] at hp
    obtain ⟨c₁, hn, h₁, hc₁⟩ := exists_next hc hp
    obtain ⟨e, c₂, he, htree, h₂, hc₂⟩ := test.read.any (by rw [consequence.head]; rfl) hc₁ h₁
    obtain ⟨b, c₃, hb, hbtree, h₃, hc₃⟩ := consequence.read c₂ _ hc₂ h₂
    obtain ⟨c₄, hn', h₄, hc₄⟩ := exists_next hc₃ h₃
    obtain ⟨b', c₅, hb', hbtree', h₅, -⟩ := alternative.read c₄ rest hc₄ h₄
    refine ⟨_, _, .ifElse hn word.kind_eq he hb hn' word'.kind_eq ?_ hb', ?_, h₅⟩
    · rw [kind_eq_headKind hc₄, h₄, alternative.head]
      decide
    · rw [Stmt.outline, outlineElse, htree, hbtree, hbtree', Conditional.tree]
  | .elseIf word test consequence word' alternative, c, rest, hrest, hc, hp => by
    simp only [Conditional.tokens, List.cons_append, List.append_assoc] at hp
    obtain ⟨c₁, hn, h₁, hc₁⟩ := exists_next hc hp
    obtain ⟨e, c₂, he, htree, h₂, hc₂⟩ := test.read.any (by rw [consequence.head]; rfl) hc₁ h₁
    obtain ⟨b, c₃, hb, hbtree, h₃, hc₃⟩ := consequence.read c₂ _ hc₂ h₂
    obtain ⟨c₄, hn', h₄, hc₄⟩ := exists_next hc₃ h₃
    obtain ⟨s, c₅, hs, hstree, h₅⟩ := alternative.accepts hrest hc₄ h₄
    obtain ⟨t, ts, hhead, hif⟩ := alternative.head
    refine ⟨_, _, .ifChain hn word.kind_eq he hb hn' word'.kind_eq ?_ hs, ?_, h₅⟩
    · rw [kind_eq_headKind hc₄, h₄, hhead]
      exact hif
    · rw [Stmt.outline, outlineElse, htree, hbtree, Block.outline, outlineAll, outlineAll, hstree,
        Conditional.tree]

theorem Sentence.accepts : (s : Sentence) → ∀ {c rest}, headKind rest ≠ .elseWord →
    c.Closed → c.pending = s.tokens ++ rest →
    Accepts .statement .stmt Stmt.outline c s.tree rest
  | .varZero word name ty semicolon, c, rest, hrest, hc, hp => by
    obtain ⟨c₁, hn, h₁, hc₁⟩ := exists_next hc hp
    obtain ⟨c₂, hn₂, h₂, hc₂⟩ := exists_next hc₁ h₁
    obtain ⟨c₃, hn₃, h₃, hc₃⟩ := exists_next hc₂ h₂
    obtain ⟨c₄, hn₄, h₄, -⟩ := exists_next hc₃ h₃
    exact ⟨_, _, .varZero hn word.kind_eq hn₂ name.kind_eq (.stated hn₃ ty.kind_eq ty.names) hn₄
      semicolon.kind_eq, rfl, h₄⟩
  | .varInit word name ty equals init semicolon, c, rest, hrest, hc, hp => by
    simp only [Sentence.tokens, List.cons_append, List.append_assoc, List.nil_append] at hp
    obtain ⟨c₁, hn, h₁, hc₁⟩ := exists_next hc hp
    obtain ⟨c₂, hn₂, h₂, hc₂⟩ := exists_next hc₁ h₁
    obtain ⟨c₃, hty, h₃, hc₃⟩ := readsType_typeTokens hc₂ h₂ (equals.ne_kind (by decide))
    obtain ⟨c₄, hn₄, h₄, hc₄⟩ := exists_next hc₃ h₃
    obtain ⟨e, c₅, he, htree, h₅, hc₅⟩ := init.read.any semicolon.lowest hc₄ h₄
    obtain ⟨c₆, hn₆, h₆, -⟩ := exists_next hc₅ h₅
    exact ⟨_, _, .varInit hn word.kind_eq hn₂ name.kind_eq hty hn₄ equals.kind_eq he hn₆
      semicolon.kind_eq, by rw [Stmt.outline, outlineInit, htree, Sentence.tree], h₆⟩
  | .const word name ty equals init semicolon, c, rest, hrest, hc, hp => by
    simp only [Sentence.tokens, List.cons_append, List.append_assoc, List.nil_append] at hp
    obtain ⟨c₁, hn, h₁, hc₁⟩ := exists_next hc hp
    obtain ⟨c₂, hn₂, h₂, hc₂⟩ := exists_next hc₁ h₁
    obtain ⟨c₃, hty, h₃, hc₃⟩ := readsType_typeTokens hc₂ h₂ (equals.ne_kind (by decide))
    obtain ⟨c₄, hn₄, h₄, hc₄⟩ := exists_next hc₃ h₃
    obtain ⟨e, c₅, he, htree, h₅, hc₅⟩ := init.read.any semicolon.lowest hc₄ h₄
    obtain ⟨c₆, hn₆, h₆, -⟩ := exists_next hc₅ h₅
    exact ⟨_, _, .const hn word.kind_eq hn₂ name.kind_eq hty hn₄ equals.kind_eq he hn₆
      semicolon.kind_eq, by rw [Stmt.outline, htree, Sentence.tree], h₆⟩
  | .assign name equals value semicolon, c, rest, hrest, hc, hp => by
    simp only [Sentence.tokens, List.cons_append, List.append_assoc, List.nil_append] at hp
    obtain ⟨c₁, hn, h₁, hc₁⟩ := exists_next hc hp
    obtain ⟨c₂, hn₂, h₂, hc₂⟩ := exists_next hc₁ h₁
    obtain ⟨e, c₃, he, htree, h₃, hc₃⟩ := value.read.any semicolon.lowest hc₂ h₂
    obtain ⟨c₄, hn₄, h₄, -⟩ := exists_next hc₃ h₃
    exact ⟨_, _, .assign hn name.kind_eq hn₂ equals.kind_eq he hn₄ semicolon.kind_eq,
      by rw [Stmt.outline, htree, Sentence.tree], h₄⟩
  | .print word value semicolon, c, rest, hrest, hc, hp => by
    simp only [Sentence.tokens, List.cons_append, List.append_assoc, List.nil_append] at hp
    obtain ⟨c₁, hn, h₁, hc₁⟩ := exists_next hc hp
    obtain ⟨e, c₂, he, htree, h₂, hc₂⟩ := value.read.any semicolon.lowest hc₁ h₁
    obtain ⟨c₃, hn₃, h₃, -⟩ := exists_next hc₂ h₂
    exact ⟨_, _, .print hn word.kind_eq he hn₃ semicolon.kind_eq,
      by rw [Stmt.outline, htree, Sentence.tree], h₃⟩
  | .conditional s, c, rest, hrest, hc, hp => by
    rw [Sentence.tokens] at hp
    obtain ⟨s', d, hs, htree, hd⟩ := s.accepts hrest hc hp
    obtain ⟨t, ts, hhead, hif⟩ := s.head
    have hk : c.kind = .ifWord := by
      rw [kind_eq_headKind hc, hp, hhead]
      exact hif
    exact ⟨s', d, .conditional hk hs, by rw [htree, Sentence.tree], hd⟩
  | .whileLoop word test body, c, rest, hrest, hc, hp => by
    simp only [Sentence.tokens, List.cons_append, List.append_assoc] at hp
    obtain ⟨c₁, hn, h₁, hc₁⟩ := exists_next hc hp
    obtain ⟨e, c₂, he, htree, h₂, hc₂⟩ := test.read.any (by rw [body.head]; rfl) hc₁ h₁
    obtain ⟨b, c₃, hb, hbtree, h₃, -⟩ := body.read c₂ rest hc₂ h₂
    exact ⟨_, _, .whileLoop hn word.kind_eq he hb,
      by rw [Stmt.outline, htree, hbtree, Sentence.tree], h₃⟩
  | .breakLoop word semicolon, c, rest, hrest, hc, hp => by
    obtain ⟨c₁, hn, h₁, hc₁⟩ := exists_next hc hp
    obtain ⟨c₂, hn₂, h₂, -⟩ := exists_next hc₁ h₁
    exact ⟨_, _, .breakLoop hn word.kind_eq hn₂ semicolon.kind_eq, rfl, h₂⟩
  | .continueLoop word semicolon, c, rest, hrest, hc, hp => by
    obtain ⟨c₁, hn, h₁, hc₁⟩ := exists_next hc hp
    obtain ⟨c₂, hn₂, h₂, -⟩ := exists_next hc₁ h₁
    exact ⟨_, _, .continueLoop hn word.kind_eq hn₂ semicolon.kind_eq, rfl, h₂⟩
  | .expr value semicolon, c, rest, hrest, hc, hp => by
    simp only [Sentence.tokens, List.cons_append, List.append_assoc, List.nil_append] at hp
    obtain ⟨e, c₁, he, htree, h₁, hc₁⟩ := value.read.any semicolon.lowest hc hp
    obtain ⟨c₂, hn₂, h₂, -⟩ := exists_next hc₁ h₁
    obtain ⟨t, ts, hhead, hstart, hname⟩ := value.head
    have hk : c.kind = t.kind := by
      rw [kind_eq_headKind hc, hp, hhead]
      rfl
    refine ⟨_, _, .exprStatement ?_ ?_ he hn₂ semicolon.kind_eq,
      by rw [Stmt.outline, htree, Sentence.tree], h₂⟩
    · rw [hk]
      exact startsStatement_of_startsOperand hstart
    · rintro ⟨hid, hnext⟩
      rw [nextKind_eq_headKind hc, hp, hhead] at hnext
      exact hname (hk ▸ hid) _ (semicolon.ne_kind (by decide)) hnext

theorem Sentences.accepts : (p : Sentences) → ∀ {c rest}, headKind rest = .closeCurly →
    c.Closed → c.pending = p.tokens ++ rest →
    Accepts .body .stmts outlineAll c p.tree rest
  | .nil, c, rest, hrest, hc, hp => by
    refine ⟨[], c, .bodyEnd ?_, rfl, hp⟩
    rw [kind_eq_headKind hc, hp]
    exact hrest
  | .cons s p, c, rest, hrest, hc, hp => by
    rw [Sentences.tokens, List.append_assoc] at hp
    have helse : headKind rest ≠ .elseWord := by
      rw [hrest]
      decide
    obtain ⟨s', d, hs, htree, hd⟩ := s.accepts (p.headKind_ne helse) hc hp
    obtain ⟨list, c', hlist, htree', hc'⟩ := p.accepts hrest (hs.closed hc) hd
    have hk := s.kind_ne hc hp
    exact ⟨s' :: list, c', .bodyNext hk.1 hk.2 hs hlist,
      by rw [outlineAll, htree, htree', Sentences.tree], hc'⟩

end

theorem Sentences.accepts_program : (p : Sentences) → ∀ {c}, c.Closed → c.pending = p.tokens →
    Accepts .program .stmts outlineAll c p.tree []
  | .nil, c, hc, hp => by
    refine ⟨[], c, .programEnd ?_, rfl, hp⟩
    rw [kind_eq_headKind hc, hp]
    rfl
  | .cons s p, c, hc, hp => by
    rw [tokens] at hp
    have helse := p.headKind_ne (show headKind [] ≠ .elseWord by decide)
    rw [List.append_nil] at helse
    obtain ⟨s', d, hs, htree, hd⟩ := s.accepts helse hc hp
    obtain ⟨list, c', hlist, htree', hc'⟩ := p.accepts_program (hs.closed hc) hd
    have hk := s.kind_ne hc hp
    exact ⟨s' :: list, c', .programNext hk.2 hs hlist, by rw [outlineAll, htree, htree', tree], hc'⟩

end Leveret.Grammar
