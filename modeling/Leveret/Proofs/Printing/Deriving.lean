import Leveret.Proofs.Grammar.Soundness
import Leveret.Proofs.Printing.Words

/-!
# The words of a tree derive it

Tokens that spell the words of a tree have a derivation that stands for this tree. The parentheses
around the operands of an operator are there just where the tier of the operator asks for a
phrase that the operand alone would not be.
-/

namespace Leveret

open Grammar

/-! ## Levels -/

def BinaryOp.tier : BinaryOp → Tier
  | or => .or
  | and => .and
  | equals | notEquals => .equality
  | less | greater | lessEquals | greaterEquals => .relational
  | add | subtract => .additive
  | multiply | divide => .multiplicative

theorem BinaryOp.mem_operators (op : BinaryOp) : (op.kind, op) ∈ op.tier.operators := by
  cases op <;> decide

theorem BinaryOp.rank_tier (op : BinaryOp) : op.tier.power.rank = op.precedence := by
  cases op <;> rfl

/-- The tightest level that the words of an expression are a phrase of. -/
def Expr.level : Expr → Level
  | .binary _ op _ _ => .tier op.tier
  | .unary _ _ _ => .unary
  | .literal _ _ | .load _ _ | .compound _ _ => .primary

theorem rank_le_primary (level : Level) : level.rank ≤ Level.primary.rank := by
  cases level with
  | tier t => cases t <;> decide
  | unary | primary => decide

theorem rank_any_le (level : Level) : Level.any.rank ≤ level.rank := by
  cases level with
  | tier t => cases t <;> decide
  | unary | primary => decide

theorem Expr.rank_of_wraps {e : Expr} {loose : Nat → Bool} (h : e.wraps loose = false) :
    Level.unary.rank ≤ e.level.rank ∨
      ∃ op : BinaryOp, e.level.rank = op.precedence ∧ loose op.precedence = false := by
  cases e with
  | binary _ op _ _ => exact .inr ⟨op, op.rank_tier, h⟩
  | unary => exact .inl (Nat.le_refl _)
  | literal | load | compound => exact .inl (rank_le_primary .unary)

theorem Expr.rank_operand {e : Expr} (h : e.wraps (fun _ => true) = false) :
    Level.unary.rank ≤ e.level.rank := by
  rcases rank_of_wraps h with h | ⟨_, _, h⟩
  · exact h
  · cases h

theorem Expr.rank_left {e : Expr} {op : BinaryOp} (h : e.wraps (· < op.precedence) = false) :
    (Level.tier op.tier).rank ≤ e.level.rank := by
  rcases rank_of_wraps h with h | ⟨op', hop, h⟩
  · exact Nat.le_trans (Nat.le_of_lt (power_rank_lt _)) h
  · rw [hop, Level.rank, op.rank_tier]
    exact Nat.le_of_not_lt (of_decide_eq_false h)

theorem Expr.rank_right {e : Expr} {op : BinaryOp} (h : e.wraps (· ≤ op.precedence) = false) :
    op.tier.operands.rank ≤ e.level.rank := by
  apply rank_operands_le
  rcases rank_of_wraps h with h | ⟨op', hop, h⟩
  · exact Nat.lt_of_lt_of_le (power_rank_lt _) h
  · rw [hop, op.rank_tier]
    exact Nat.lt_of_not_le (of_decide_eq_false h)

/-! ## Tokens that spell words -/

section Tokens

variable {tokens : List Token} {words : List Lexeme} {kind : Kind} {text : String}

theorem cons_of_words (h : tokens.map Token.lexeme = (kind, text) :: words) :
    ∃ (word : Word kind) (rest : List Token), tokens = word.token :: rest ∧
      word.token.text = text ∧ rest.map Token.lexeme = words := by
  obtain ⟨t, rest, rfl, ht, hrest⟩ := List.map_eq_cons_iff.1 h
  obtain ⟨hkind, htext⟩ := Prod.mk.inj ht
  exact ⟨⟨t, hkind⟩, rest, rfl, htext, hrest⟩

theorem snoc_of_words (h : tokens.map Token.lexeme = words ++ [(kind, text)]) :
    ∃ (before : List Token) (word : Word kind), tokens = before ++ [word.token] ∧
      before.map Token.lexeme = words := by
  obtain ⟨before, last, rfl, hbefore, hlast⟩ := List.map_eq_append_iff.1 h
  obtain ⟨word, rest, rfl, -, hrest⟩ := cons_of_words hlast
  rw [List.map_eq_nil_iff.1 hrest]
  exact ⟨before, word, rfl, hbefore⟩

theorem one_of_words (h : tokens.map Token.lexeme = [(kind, text)]) :
    ∃ word : Word kind, tokens = [word.token] ∧ word.token.text = text := by
  obtain ⟨word, rest, rfl, htext, hrest⟩ := cons_of_words h
  rw [List.map_eq_nil_iff.1 hrest]
  exact ⟨word, rfl, htext⟩

theorem literal?_of_spellable {v : Value} (hv : v.Spellable) (word : Word v.kind)
    (h : word.token.text = v.text) : word.token.literal? = some v := by
  have hkind := word.kind_eq
  unfold Token.literal?
  cases v with
  | int n => simp [hkind, h, Value.kind, Value.text, readInt32?_writeInteger hv]
  | float x => simp [hkind, h, Value.kind, Value.text, Double.read?_format hv.1 hv.2]
  | bool b => cases b <;> simp [hkind, Value.kind]

theorem type_of_words {ty : Option Ty} (h : tokens.map Token.lexeme = typeWords ty) :
    ∃ word : Option TypeWord, typeTokens word = tokens ∧ word.map (·.ty) = ty := by
  cases ty with
  | none => exact ⟨none, (List.map_eq_nil_iff.1 h).symm, rfl⟩
  | some ty =>
    obtain ⟨word, rfl, htext⟩ := one_of_words h
    have hname : Ty.ofName? word.token.text = some ty := by
      rw [htext]
      cases ty <;> rfl
    exact ⟨some ⟨word.token, ty, word.kind_eq, hname⟩, rfl, rfl⟩

theorem declaration_of_words {name : String} {ty : Option Ty}
    (h : tokens.map Token.lexeme = (kind, text) :: (.identifier, name) :: typeWords ty ++
      (.assignment, "=") :: words ++ [(.semicolon, ";")]) :
    ∃ (word : Word kind) (id : Word .identifier) (tyWord : Option TypeWord)
      (equals : Word .assignment) (init : List Token) (semicolon : Word .semicolon),
      tokens = word.token :: id.token :: typeTokens tyWord ++ equals.token :: init ++
        [semicolon.token] ∧
      id.token.text = name ∧ tyWord.map (·.ty) = ty ∧ init.map Token.lexeme = words := by
  rw [List.append_assoc] at h
  obtain ⟨word, rest₁, rfl, -, h₁⟩ := cons_of_words h
  obtain ⟨id, rest₂, rfl, hname, h₂⟩ := cons_of_words h₁
  obtain ⟨types, rest₃, rfl, htypes, h₃⟩ := List.map_eq_append_iff.1 h₂
  obtain ⟨tyWord, rfl, hty⟩ := type_of_words htypes
  obtain ⟨equals, rest₄, rfl, -, h₄⟩ := cons_of_words h₃
  obtain ⟨init, semicolon, rfl, hinit⟩ := snoc_of_words h₄
  refine ⟨word, id, tyWord, equals, init, semicolon, ?_, hname, hty, hinit⟩
  simp only [List.cons_append, List.append_assoc]

end Tokens

/-! ## Trees -/

section Phrases

variable {tokens : List Token} {e : Expr}

theorem any_of_phrase {level : Level} (h : ∃ p : Phrase level, p.tokens = tokens ∧ p.tree = e) :
    ∃ p : Phrase .any, p.tokens = tokens ∧ p.tree = e := by
  obtain ⟨p, rfl, rfl⟩ := h
  exact p.loosen (rank_any_le level)

/-- An operand is a phrase of the level asked for, in parentheses or because it needs none. -/
theorem phrase_of_wrapped {wrap : Bool} {level : Level}
    (hwrap : wrap = false → level.rank ≤ e.level.rank)
    (h : ∀ {tokens : List Token}, tokens.map Token.lexeme = e.words →
      ∃ p : Phrase e.level, p.tokens = tokens ∧ p.tree = e.outline)
    (ht : tokens.map Token.lexeme = wrapped wrap e.words) :
    ∃ p : Phrase level, p.tokens = tokens ∧ p.tree = e.outline := by
  cases wrap with
  | false =>
    obtain ⟨p, rfl, htree⟩ := h ht
    obtain ⟨q, hq, hqtree⟩ := p.loosen (hwrap rfl)
    exact ⟨q, hq, by rw [hqtree, htree]⟩
  | true =>
    obtain ⟨opening, rest₁, rfl, -, h₁⟩ := cons_of_words ht
    obtain ⟨inside, closing, rfl, h₂⟩ := snoc_of_words h₁
    obtain ⟨p, rfl, htree⟩ := any_of_phrase (h h₂)
    obtain ⟨q, hq, hqtree⟩ := (Phrase.group opening p closing).loosen (rank_le_primary level)
    exact ⟨q, by rw [hq, Phrase.tokens]; rfl, by rw [hqtree, Phrase.tree, htree]⟩

end Phrases

mutual

theorem Expr.derives : (e : Expr) → (∀ part ∈ e.parts, part.Spellable) → ∀ {tokens : List Token},
    tokens.map Token.lexeme = e.words →
    ∃ p : Phrase e.level, p.tokens = tokens ∧ p.tree = e.outline
  | .literal node value, h, tokens, ht => by
    have hvalue : value.Spellable := h (.expr (.literal node value)) (by simp [Expr.parts])
    rw [Expr.words] at ht
    obtain ⟨word, rfl, htext⟩ := one_of_words ht
    exact ⟨.constant ⟨word.token, value, literal?_of_spellable hvalue word htext⟩, rfl, rfl⟩
  | .unary _ op operand, h, tokens, ht => by
    rw [Expr.parts] at h
    rw [Expr.words] at ht
    rw [Expr.level]
    obtain ⟨sign, rest₁, rfl, -, h₁⟩ := cons_of_words ht
    have hsign : (sign.token.kind, op) ∈ signs := by
      rw [sign.kind_eq]
      cases op <;> decide
    obtain ⟨p, rfl, htree⟩ := phrase_of_wrapped Expr.rank_operand
      (operand.derives (List.forall_mem_append.1 h).1) h₁
    exact ⟨.signed ⟨sign.token, op, hsign⟩ p, rfl, by rw [Phrase.tree, htree, Expr.outline]⟩
  | .binary _ op left right, h, tokens, ht => by
    rw [Expr.parts] at h
    obtain ⟨hleft, hright⟩ := List.forall_mem_append.1 (List.forall_mem_append.1 h).1
    rw [Expr.words] at ht
    rw [Expr.level]
    obtain ⟨before, after, rfl, hbefore, hafter⟩ := List.map_eq_append_iff.1 ht
    obtain ⟨word, rest, rfl, -, hrest⟩ := cons_of_words hafter
    have hop : (word.token.kind, op) ∈ op.tier.operators := by
      rw [word.kind_eq]
      exact op.mem_operators
    obtain ⟨p, rfl, hp⟩ := phrase_of_wrapped Expr.rank_left (left.derives hleft) hbefore
    obtain ⟨q, rfl, hq⟩ := phrase_of_wrapped Expr.rank_right (right.derives hright) hrest
    obtain ⟨joined, htokens, htree⟩ := p.join ⟨word.token, op, hop⟩ q
    exact ⟨joined, htokens, by rw [htree, hp, hq, Expr.outline]⟩
  | .load node name, h, tokens, ht => by
    rw [Expr.words] at ht
    obtain ⟨word, rfl, rfl⟩ := one_of_words ht
    exact ⟨.name word, rfl, rfl⟩
  | .compound _ body, h, tokens, ht => by
    rw [Expr.parts] at h
    rw [Expr.words] at ht
    rw [Expr.level]
    obtain ⟨b, rfl, htree⟩ := body.derives (List.forall_mem_append.1 h).1 ht
    exact ⟨.compound b, rfl, by rw [Phrase.tree, htree, Expr.outline]⟩

theorem Block.derives : (b : Block) → (∀ part ∈ b.parts, part.Spellable) →
    ∀ {tokens : List Token}, tokens.map Token.lexeme = b.words →
    ∃ p : Braces, p.tokens = tokens ∧ p.tree = b.outline
  | ⟨_, statements⟩, h, tokens, ht => by
    rw [Block.parts] at h
    rw [Block.words] at ht
    obtain ⟨opening, rest₁, rfl, -, h₁⟩ := cons_of_words ht
    obtain ⟨inside, closing, rfl, h₂⟩ := snoc_of_words h₁
    obtain ⟨p, rfl, htree⟩ := derivesAll statements h h₂
    exact ⟨.mk opening p closing, rfl, by rw [Braces.tree, htree, Block.outline]⟩

theorem Stmt.derives : (s : Stmt) → (∀ part ∈ s.parts, part.Spellable) →
    ∀ {tokens : List Token}, tokens.map Token.lexeme = s.words →
    ∃ p : Sentence, p.tokens = tokens ∧ p.tree = s.outline
  | .declareVar node name ty none, h, tokens, ht => by
    have hpart := h (.stmt (.declareVar node name ty none)) (by simp [Stmt.parts])
    rw [Stmt.words] at ht
    obtain ⟨word, rest₁, rfl, -, h₁⟩ := cons_of_words ht
    obtain ⟨id, rest₂, rfl, rfl, h₂⟩ := cons_of_words h₁
    obtain ⟨types, semicolon, rfl, h₃⟩ := snoc_of_words h₂
    obtain ⟨tyWord, rfl, rfl⟩ := type_of_words h₃
    cases tyWord with
    | none => exact absurd ⟨rfl, rfl⟩ hpart.2
    | some tyWord => exact ⟨.varZero word id tyWord semicolon, rfl, rfl⟩
  | .declareVar _ name ty (some init), h, tokens, ht => by
    rw [Stmt.parts] at h
    rw [Stmt.words] at ht
    obtain ⟨word, id, tyWord, equals, tail, semicolon, rfl, rfl, rfl, htail⟩ :=
      declaration_of_words ht
    obtain ⟨p, rfl, htree⟩ := any_of_phrase (init.derives (List.forall_mem_append.1 h).1 htail)
    refine ⟨.varInit word id tyWord equals p semicolon, rfl, ?_⟩
    rw [Sentence.tree, htree, Stmt.outline, outlineInit]
  | .declareConst _ name ty init, h, tokens, ht => by
    rw [Stmt.parts] at h
    rw [Stmt.words] at ht
    obtain ⟨word, id, tyWord, equals, tail, semicolon, rfl, rfl, rfl, htail⟩ :=
      declaration_of_words ht
    obtain ⟨p, rfl, htree⟩ := any_of_phrase (init.derives (List.forall_mem_append.1 h).1 htail)
    refine ⟨.const word id tyWord equals p semicolon, rfl, ?_⟩
    rw [Sentence.tree, htree, Stmt.outline]
  | .assign _ name value, h, tokens, ht => by
    rw [Stmt.parts] at h
    rw [Stmt.words] at ht
    obtain ⟨id, rest₁, rfl, rfl, h₁⟩ := cons_of_words ht
    obtain ⟨equals, rest₂, rfl, -, h₂⟩ := cons_of_words h₁
    obtain ⟨inside, semicolon, rfl, h₃⟩ := snoc_of_words h₂
    obtain ⟨p, rfl, htree⟩ := any_of_phrase (value.derives (List.forall_mem_append.1 h).1 h₃)
    exact ⟨.assign id equals p semicolon, rfl, by rw [Sentence.tree, htree, Stmt.outline]⟩
  | .print _ value, h, tokens, ht => by
    rw [Stmt.parts] at h
    rw [Stmt.words] at ht
    obtain ⟨word, rest₁, rfl, -, h₁⟩ := cons_of_words ht
    obtain ⟨inside, semicolon, rfl, h₂⟩ := snoc_of_words h₁
    obtain ⟨p, rfl, htree⟩ := any_of_phrase (value.derives (List.forall_mem_append.1 h).1 h₂)
    exact ⟨.print word p semicolon, rfl, by rw [Sentence.tree, htree, Stmt.outline]⟩
  | .ifElse _ condition consequence none, h, tokens, ht => by
    rw [Stmt.parts] at h
    obtain ⟨hcondition, hconsequence⟩ := List.forall_mem_append.1 (List.forall_mem_append.1 h).1
    rw [Stmt.words] at ht
    obtain ⟨word, rest₁, rfl, -, h₁⟩ := cons_of_words ht
    obtain ⟨test, block, rfl, htest, hblock⟩ := List.map_eq_append_iff.1 h₁
    obtain ⟨p, rfl, hp⟩ := any_of_phrase (condition.derives hcondition htest)
    obtain ⟨b, rfl, hb⟩ := consequence.derives hconsequence hblock
    refine ⟨.conditional (.only word p b), rfl, ?_⟩
    rw [Sentence.tree, Conditional.tree, hp, hb, Stmt.outline, outlineElse]
  | .ifElse _ condition consequence (some alternative), h, tokens, ht => by
    rw [Stmt.parts] at h
    obtain ⟨hblocks, halternative⟩ := List.forall_mem_append.1 (List.forall_mem_append.1 h).1
    obtain ⟨hcondition, hconsequence⟩ := List.forall_mem_append.1 hblocks
    rw [Stmt.words] at ht
    obtain ⟨before, after, rfl, hbefore, hafter⟩ := List.map_eq_append_iff.1 ht
    obtain ⟨word, rest, rfl, -, hrest⟩ := cons_of_words hbefore
    obtain ⟨test, block, rfl, htest, hblock⟩ := List.map_eq_append_iff.1 hrest
    obtain ⟨word', block', rfl, -, hblock'⟩ := cons_of_words hafter
    obtain ⟨p, rfl, hp⟩ := any_of_phrase (condition.derives hcondition htest)
    obtain ⟨b, rfl, hb⟩ := consequence.derives hconsequence hblock
    obtain ⟨b', rfl, hb'⟩ := alternative.derives halternative hblock'
    refine ⟨.conditional (.otherwise word p b word' b'), rfl, ?_⟩
    rw [Sentence.tree, Conditional.tree, hp, hb, hb', Stmt.outline, outlineElse]
  | .whileLoop _ condition body, h, tokens, ht => by
    rw [Stmt.parts] at h
    obtain ⟨hcondition, hbody⟩ := List.forall_mem_append.1 (List.forall_mem_append.1 h).1
    rw [Stmt.words] at ht
    obtain ⟨word, rest₁, rfl, -, h₁⟩ := cons_of_words ht
    obtain ⟨test, block, rfl, htest, hblock⟩ := List.map_eq_append_iff.1 h₁
    obtain ⟨p, rfl, hp⟩ := any_of_phrase (condition.derives hcondition htest)
    obtain ⟨b, rfl, hb⟩ := body.derives hbody hblock
    exact ⟨.whileLoop word p b, rfl, by rw [Sentence.tree, hp, hb, Stmt.outline]⟩
  | .breakLoop _, h, tokens, ht => by
    rw [Stmt.words] at ht
    obtain ⟨word, rest₁, rfl, -, h₁⟩ := cons_of_words ht
    obtain ⟨semicolon, rfl, -⟩ := one_of_words h₁
    exact ⟨.breakLoop word semicolon, rfl, rfl⟩
  | .continueLoop _, h, tokens, ht => by
    rw [Stmt.words] at ht
    obtain ⟨word, rest₁, rfl, -, h₁⟩ := cons_of_words ht
    obtain ⟨semicolon, rfl, -⟩ := one_of_words h₁
    exact ⟨.continueLoop word semicolon, rfl, rfl⟩
  | .expr _ value, h, tokens, ht => by
    rw [Stmt.parts] at h
    rw [Stmt.words] at ht
    obtain ⟨inside, semicolon, rfl, h₁⟩ := snoc_of_words ht
    obtain ⟨p, rfl, htree⟩ := any_of_phrase (value.derives (List.forall_mem_append.1 h).1 h₁)
    exact ⟨.expr p semicolon, rfl, by rw [Sentence.tree, htree, Stmt.outline]⟩

theorem derivesAll : (list : List Stmt) → (∀ part ∈ partsAll list, part.Spellable) →
    ∀ {tokens : List Token}, tokens.map Token.lexeme = wordsAll list →
    ∃ p : Sentences, p.tokens = tokens ∧ p.tree = outlineAll list
  | [], h, tokens, ht => ⟨.nil, (List.map_eq_nil_iff.1 ht).symm, rfl⟩
  | s :: rest, h, tokens, ht => by
    rw [partsAll] at h
    obtain ⟨hs, hrest⟩ := List.forall_mem_append.1 h
    rw [wordsAll] at ht
    obtain ⟨before, after, rfl, hbefore, hafter⟩ := List.map_eq_append_iff.1 ht
    obtain ⟨p, rfl, hp⟩ := s.derives hs hbefore
    obtain ⟨q, rfl, hq⟩ := derivesAll rest hrest hafter
    exact ⟨.cons p q, rfl, by rw [Sentences.tree, hp, hq, outlineAll]⟩

end

end Leveret
