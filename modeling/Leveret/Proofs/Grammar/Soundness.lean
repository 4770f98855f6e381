import Leveret.Proofs.Grammar.Derivation
import Leveret.Proofs.Outline

/-!
# What is read is derived

Every successful run of the parser follows a derivation of the grammar. The operators that the
parser takes in one by one are sorted into tiers: what is read so far is a phrase of some level,
and the next operator binds no tighter than that level.
-/

namespace Leveret.Grammar

open Leveret.Parser (Goal Piece Reads ReadsType)

/-! ## Tiers and powers -/

def Tier.power : Tier → Power
  | or => .logicalOr
  | and => .logicalAnd
  | equality => .equality
  | relational => .relational
  | additive => .additive
  | multiplicative => .multiplicative

/-- How tightly an expression holds together. Signs hold tighter than any operator between two
operands. -/
def Level.rank : Level → Nat
  | tier t => t.power.rank
  | unary => 9
  | primary => 10

theorem of_mem_operators {tier : Tier} {kind : Kind} {op : BinaryOp}
    (h : (kind, op) ∈ tier.operators) :
    kind.power = tier.power ∧ BinaryOp.ofKind? kind = some op := by
  cases tier <;>
    simp only [Tier.operators, List.mem_cons, Prod.mk.injEq, List.not_mem_nil, or_false] at h
  case or | and =>
    obtain ⟨rfl, rfl⟩ := h
    exact ⟨rfl, rfl⟩
  case equality | additive | multiplicative =>
    rcases h with ⟨rfl, rfl⟩ | ⟨rfl, rfl⟩ <;> exact ⟨rfl, rfl⟩
  case relational =>
    rcases h with ⟨rfl, rfl⟩ | ⟨rfl, rfl⟩ | ⟨rfl, rfl⟩ | ⟨rfl, rfl⟩ <;> exact ⟨rfl, rfl⟩

theorem exists_tier {kind : Kind} {op : BinaryOp} (h : BinaryOp.ofKind? kind = some op) :
    ∃ tier : Tier, (kind, op) ∈ tier.operators := by
  cases op <;> cases kind <;> cases h
  case or => exact ⟨.or, by decide⟩
  case and => exact ⟨.and, by decide⟩
  case equals | notEquals => exact ⟨.equality, by decide⟩
  case less | lessEquals | greater | greaterEquals => exact ⟨.relational, by decide⟩
  case add | subtract => exact ⟨.additive, by decide⟩
  case multiply | divide => exact ⟨.multiplicative, by decide⟩

theorem mem_signs {kind : Kind} {op : UnaryOp} :
    (kind, op) ∈ signs ↔ UnaryOp.ofKind? kind = some op := by
  cases kind <;> cases op <;> decide

theorem rank_lt_operands (tier : Tier) : tier.power.rank < tier.operands.rank := by
  cases tier <;> decide

theorem rank_operands_le {tier : Tier} {level : Level} (h : tier.power.rank < level.rank) :
    tier.operands.rank ≤ level.rank := by
  cases level with
  | tier t => cases tier <;> cases t <;> revert h <;> decide
  | unary | primary => cases tier <;> decide

theorem power_rank_lt (power : Power) : power.rank < Level.unary.rank := by
  cases power <;> decide

theorem eq_or_rank_lt {level level' : Level} (h : level.rank ≤ level'.rank) :
    level = level' ∨ level.rank < level'.rank := by
  cases level <;> cases level'
  case tier.tier t t' => cases t <;> cases t' <;> revert h <;> decide
  case unary.tier t | primary.tier t => cases t <;> revert h <;> decide
  case tier.unary t | tier.primary t => cases t <;> exact .inr (by decide)
  all_goals revert h; decide

/-! ## Phrases of looser levels -/

theorem Phrase.loosen {level level' : Level} (h : level'.rank ≤ level.rank) (p : Phrase level) :
    ∃ q : Phrase level', q.tokens = p.tokens ∧ q.tree = p.tree := by
  -- from the tightest level down to `level'`, one step at a time
  induction hn : 10 - level'.rank using Nat.strongRecOn generalizing level' with
  | ind n ih =>
    rcases eq_or_rank_lt h with rfl | hlt
    · exact ⟨p, rfl, rfl⟩
    · cases level' with
      | tier t =>
        have hdown : 10 - t.operands.rank < n := by
          subst hn
          cases t <;> decide
        obtain ⟨q, htokens, htree⟩ := ih _ hdown (rank_operands_le hlt) rfl
        exact ⟨.chain q .nil, by rw [tokens, Chain.tokens, List.append_nil, htokens],
          by rw [tree, Chain.tree, htree]⟩
      | unary =>
        cases level with
        | primary => exact ⟨.unsigned p, by rw [tokens], by rw [tree]⟩
        | unary => exact absurd hlt (Nat.lt_irrefl _)
        | tier t => exact absurd hlt (Nat.not_lt_of_gt (power_rank_lt t.power))
      | primary =>
        cases level with
        | primary | unary => exact absurd hlt (by decide)
        | tier t => cases t <;> exact absurd hlt (by decide)

def Chain.snoc {tier : Tier} : Chain tier → Operator tier → Phrase tier.operands → Chain tier
  | .nil, operator, operand => .cons operator operand .nil
  | .cons first operand' more, operator, operand =>
    .cons first operand' (more.snoc operator operand)

theorem Chain.tokens_snoc {tier : Tier} (operator : Operator tier)
    (operand : Phrase tier.operands) : (chain : Chain tier) →
    (chain.snoc operator operand).tokens = chain.tokens ++ operator.token :: operand.tokens
  | .nil => by simp [snoc, tokens]
  | .cons _ _ more => by simp [snoc, tokens, tokens_snoc operator operand more]

theorem Chain.tree_snoc {tier : Tier} (operator : Operator tier)
    (operand : Phrase tier.operands) : (chain : Chain tier) → (left : Expr) →
    (chain.snoc operator operand).tree left =
      .binary default operator.op (chain.tree left) operand.tree
  | .nil, left => by simp [snoc, tree]
  | .cons _ _ more, left => by simp [snoc, tree, tree_snoc operator operand more]

theorem Phrase.join {tier : Tier} (p : Phrase (.tier tier)) (operator : Operator tier)
    (operand : Phrase tier.operands) : ∃ q : Phrase (.tier tier),
      q.tokens = p.tokens ++ operator.token :: operand.tokens ∧
      q.tree = .binary default operator.op p.tree operand.tree := by
  cases p with
  | chain first more =>
    refine ⟨.chain first (more.snoc operator operand), ?_, ?_⟩
    · rw [tokens, tokens, Chain.tokens_snoc, List.append_assoc]
    · rw [tree, tree, Chain.tree_snoc]

/-! ## Reading follows a derivation -/

/-- What a parser was asked for and gave back comes from a derivation of what it has read. -/
def Follows : Goal → Cursor → Piece → Cursor → Prop
  | .operand, c, .expr e, d =>
    ∃ p : Phrase .unary, c.pending = p.tokens ++ d.pending ∧ p.tree = e.outline
  | .expr power, c, .expr e, d => ∃ level, power.rank < level.rank ∧ ∃ p : Phrase level,
      c.pending = p.tokens ++ d.pending ∧ p.tree = e.outline ∧ d.kind.power.rank ≤ power.rank
  | .extend power left, c, .expr e, d =>
    ∀ level (p : Phrase level), power.rank < level.rank → c.kind.power.rank ≤ level.rank →
      p.tree = left.outline → ∃ level', power.rank < level'.rank ∧ ∃ q : Phrase level',
        p.tokens ++ c.pending = q.tokens ++ d.pending ∧ q.tree = e.outline ∧
        d.kind.power.rank ≤ power.rank
  | .block, c, .block b, d =>
    ∃ p : Braces, c.pending = p.tokens ++ d.pending ∧ p.tree = b.outline
  | .conditional, c, .stmt s, d =>
    ∃ p : Conditional, c.pending = p.tokens ++ d.pending ∧ p.tree = s.outline
  | .statement, c, .stmt s, d =>
    ∃ p : Sentence, c.pending = p.tokens ++ d.pending ∧ p.tree = s.outline
  | .body, c, .stmts list, d =>
    ∃ p : Sentences, c.pending = p.tokens ++ d.pending ∧ p.tree = outlineAll list
  | .program, c, .stmts list, d => d.kind = .endOfFile ∧
    ∃ p : Sentences, c.pending = p.tokens ++ d.pending ∧ p.tree = outlineAll list
  | _, _, _, _ => False

theorem readsType_follows {c d : Cursor} {ty : Option Ty} (h : ReadsType c ty d) :
    ∃ word : Option TypeWord, c.pending = typeTokens word ++ d.pending ∧
      word.map (·.ty) = ty := by
  cases h with
  | missing => exact ⟨none, rfl, rfl⟩
  | stated hn hk hty => exact ⟨some ⟨_, _, hk, hty⟩, hn.1, rfl⟩

theorem any_of_follows {c d : Cursor} {e : Expr} (h : Follows (.expr .lowest) c (.expr e) d) :
    ∃ p : Phrase .any, c.pending = p.tokens ++ d.pending ∧ p.tree = e.outline := by
  obtain ⟨level, hlevel, p, htokens, htree, -⟩ := h
  obtain ⟨q, hq, hq'⟩ := p.loosen (show Level.any.rank ≤ level.rank from hlevel)
  exact ⟨q, by rw [hq, htokens], by rw [hq', htree]⟩

theorem signed_follows {c d d' : Cursor} {t : Token} {op : UnaryOp} {e : Expr} {node : Node}
    (hn : c.Next t d) (hop : UnaryOp.ofKind? t.kind = some op)
    (h : Follows (.expr .unary) d (.expr e) d') :
    Follows .operand c (.expr (.unary node op e)) d' := by
  obtain ⟨level, hlevel, p, htokens, htree, -⟩ := h
  have hunary : Level.unary.rank ≤ level.rank := by
    cases level with
    | tier t => cases t <;> exact absurd hlevel (by decide)
    | unary | primary => decide
  obtain ⟨q, hq, hq'⟩ := p.loosen hunary
  refine ⟨.signed ⟨t, op, mem_signs.2 hop⟩ q, ?_, ?_⟩
  · rw [hn.1, htokens, Phrase.tokens, hq]
    rfl
  · rw [Phrase.tree, Expr.outline, hq', htree]

theorem join_follows {power : Power} {c d d' c' : Cursor} {t : Token} {op : BinaryOp}
    {left right e : Expr} {node : Node} (hp : power < t.kind.power) (hn : c.Next t d)
    (hop : BinaryOp.ofKind? t.kind = some op)
    (hright : Follows (.expr t.kind.power) d (.expr right) d')
    (hmore : Follows (.extend power (.binary node op left right)) d'.tick (.expr e) c') :
    Follows (.extend power left) c (.expr e) c' := by
  intro level p hlevel hkind hleft
  obtain ⟨tier, hmem⟩ := exists_tier hop
  obtain ⟨hpower, -⟩ := of_mem_operators hmem
  rw [hn.kind] at hkind
  rw [hpower] at hp hkind hright
  obtain ⟨level', hlevel', r, hr, hr', hstop⟩ := hright
  obtain ⟨p', hp', hptree⟩ := p.loosen (show (Level.tier tier).rank ≤ level.rank from hkind)
  obtain ⟨r', hrtokens, hrtree⟩ := r.loosen (rank_operands_le hlevel')
  obtain ⟨q, hq, hqtree⟩ := p'.join ⟨t, op, hmem⟩ r'
  have htree : q.tree = (Expr.binary node op left right).outline := by
    rw [hqtree, hptree, hrtree, hleft, hr', Expr.outline]
  obtain ⟨level'', hlevel'', q', hq', hrest⟩ := hmore (.tier tier) q hp hstop htree
  refine ⟨level'', hlevel'', q', ?_, hrest⟩
  rw [← hq', hq, hp', hrtokens, hn.1, hr]
  simp [Cursor.tick]

theorem reads_follows {g : Goal} {c d : Cursor} {piece : Piece} (h : Reads g c piece d) :
    Follows g c piece d := by
  induction h with
  | literal hn hv => exact ⟨.unsigned (.constant ⟨_, _, hv⟩), hn.1, rfl⟩
  | name hn hk => exact ⟨.unsigned (.name ⟨_, hk⟩), hn.1, rfl⟩
  | signed hn hop _ ih => exact signed_follows hn hop ih
  | group hn hk _ hn' hk' ih =>
    obtain ⟨p, hp, htree⟩ := any_of_follows ih
    refine ⟨.unsigned (.group ⟨_, hk⟩ p ⟨_, hk'⟩), ?_, htree⟩
    simp [Phrase.tokens, hn.1, hp, hn'.1]
  | compound hk _ ih =>
    obtain ⟨p, hp, htree⟩ := ih
    exact ⟨.unsigned (.compound p), hp, by simp [Phrase.tree, htree, Expr.outline]⟩
  | @expr c power left d e c' _ _ ih ih' =>
    obtain ⟨p, hp, htree⟩ := ih
    obtain ⟨level, hlevel, q, hq, hrest⟩ :=
      ih' .unary p (power_rank_lt power) (Nat.le_of_lt (power_rank_lt _)) htree
    exact ⟨level, hlevel, q, hp.trans hq, hrest⟩
  | stop hp =>
    intro level p hlevel _ hleft
    exact ⟨level, hlevel, p, rfl, hleft, Nat.le_of_not_lt hp⟩
  | join hp hn hop _ _ ih ih' => exact join_follows hp hn hop ih ih'
  | block hn hk _ hn' hk' ih =>
    obtain ⟨p, hp, htree⟩ := ih
    refine ⟨.mk ⟨_, hk⟩ p ⟨_, hk'⟩, ?_, ?_⟩
    · simp [Braces.tokens, hn.1, hp, hn'.1]
    · rw [Braces.tree, htree, Block.outline]
  | bodyEnd hk => exact ⟨.nil, rfl, rfl⟩
  | bodyNext _ _ _ _ ih ih' =>
    obtain ⟨p, hp, htree⟩ := ih
    obtain ⟨q, hq, hqtree⟩ := ih'
    refine ⟨.cons p q, ?_, ?_⟩
    · simp [Sentences.tokens, hp, hq]
    · rw [Sentences.tree, htree, hqtree, outlineAll]
  | ifOnly hn hk _ _ _ ih ih' =>
    obtain ⟨p, hp, htree⟩ := any_of_follows ih
    obtain ⟨b, hb, hbtree⟩ := ih'
    refine ⟨.only ⟨_, hk⟩ p b, ?_, ?_⟩
    · simp [Conditional.tokens, hn.1, hp, hb]
    · rw [Conditional.tree, htree, hbtree, Stmt.outline, outlineElse]
  | ifElse hn hk _ _ hn' hk' _ _ ih ih' ih'' =>
    obtain ⟨p, hp, htree⟩ := any_of_follows ih
    obtain ⟨b, hb, hbtree⟩ := ih'
    obtain ⟨b', hb', hbtree'⟩ := ih''
    refine ⟨.otherwise ⟨_, hk⟩ p b ⟨_, hk'⟩ b', ?_, ?_⟩
    · simp [Conditional.tokens, hn.1, hp, hb, hn'.1, hb']
    · rw [Conditional.tree, htree, hbtree, hbtree', Stmt.outline, outlineElse]
  | ifChain hn hk _ _ hn' hk' _ _ ih ih' ih'' =>
    obtain ⟨p, hp, htree⟩ := any_of_follows ih
    obtain ⟨b, hb, hbtree⟩ := ih'
    obtain ⟨s, hs, hstree⟩ := ih''
    refine ⟨.elseIf ⟨_, hk⟩ p b ⟨_, hk'⟩ s, ?_, ?_⟩
    · simp [Conditional.tokens, hn.1, hp, hb, hn'.1, hs]
    · rw [Conditional.tree, htree, hbtree, hstree, Stmt.outline, outlineElse, Block.outline]
      rfl
  | varZero hn hk hname hid hty hs hs' =>
    cases hty with
    | stated hty hty' hof =>
      refine ⟨.varZero ⟨_, hk⟩ ⟨_, hid⟩ ⟨_, _, hty', hof⟩ ⟨_, hs'⟩, ?_, rfl⟩
      simp [Sentence.tokens, hn.1, hname.1, hty.1, hs.1]
  | varInit hn hk hname hid hty heq heq' _ hs hs' ih =>
    obtain ⟨word, hword, hty⟩ := readsType_follows hty
    obtain ⟨p, hp, htree⟩ := any_of_follows ih
    refine ⟨.varInit ⟨_, hk⟩ ⟨_, hid⟩ word ⟨_, heq'⟩ p ⟨_, hs'⟩, ?_, ?_⟩
    · simp [Sentence.tokens, hn.1, hname.1, hword, heq.1, hp, hs.1]
    · rw [Sentence.tree, hty, htree, Stmt.outline, outlineInit]
  | const hn hk hname hid hty heq heq' _ hs hs' ih =>
    obtain ⟨word, hword, hty⟩ := readsType_follows hty
    obtain ⟨p, hp, htree⟩ := any_of_follows ih
    refine ⟨.const ⟨_, hk⟩ ⟨_, hid⟩ word ⟨_, heq'⟩ p ⟨_, hs'⟩, ?_, ?_⟩
    · simp [Sentence.tokens, hn.1, hname.1, hword, heq.1, hp, hs.1]
    · rw [Sentence.tree, hty, htree, Stmt.outline]
  | assign hname hid heq heq' _ hs hs' ih =>
    obtain ⟨p, hp, htree⟩ := any_of_follows ih
    refine ⟨.assign ⟨_, hid⟩ ⟨_, heq'⟩ p ⟨_, hs'⟩, ?_, ?_⟩
    · simp [Sentence.tokens, hname.1, heq.1, hp, hs.1]
    · rw [Sentence.tree, htree, Stmt.outline]
  | print hn hk _ hs hs' ih =>
    obtain ⟨p, hp, htree⟩ := any_of_follows ih
    refine ⟨.print ⟨_, hk⟩ p ⟨_, hs'⟩, ?_, ?_⟩
    · simp [Sentence.tokens, hn.1, hp, hs.1]
    · rw [Sentence.tree, htree, Stmt.outline]
  | conditional _ _ ih =>
    obtain ⟨s, hs, htree⟩ := ih
    exact ⟨.conditional s, hs, htree⟩
  | whileLoop hn hk _ _ ih ih' =>
    obtain ⟨p, hp, htree⟩ := any_of_follows ih
    obtain ⟨b, hb, hbtree⟩ := ih'
    refine ⟨.whileLoop ⟨_, hk⟩ p b, ?_, ?_⟩
    · simp [Sentence.tokens, hn.1, hp, hb]
    · rw [Sentence.tree, htree, hbtree, Stmt.outline]
  | breakLoop hn hk hs hs' =>
    refine ⟨.breakLoop ⟨_, hk⟩ ⟨_, hs'⟩, ?_, rfl⟩
    simp [Sentence.tokens, hn.1, hs.1]
  | continueLoop hn hk hs hs' =>
    refine ⟨.continueLoop ⟨_, hk⟩ ⟨_, hs'⟩, ?_, rfl⟩
    simp [Sentence.tokens, hn.1, hs.1]
  | exprStatement _ _ _ hs hs' ih =>
    obtain ⟨p, hp, htree⟩ := any_of_follows ih
    refine ⟨.expr p ⟨_, hs'⟩, ?_, ?_⟩
    · simp [Sentence.tokens, hp, hs.1]
    · rw [Sentence.tree, htree, Stmt.outline]
  | programEnd hk => exact ⟨hk, .nil, rfl, rfl⟩
  | programNext _ _ _ ih ih' =>
    obtain ⟨p, hp, htree⟩ := ih
    obtain ⟨hend, q, hq, hqtree⟩ := ih'
    refine ⟨hend, .cons p q, ?_, ?_⟩
    · simp [Sentences.tokens, hp, hq]
    · rw [Sentences.tree, htree, hqtree, outlineAll]

end Leveret.Grammar
