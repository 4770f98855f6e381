import Leveret.Proofs.Grammar.FirstFault
import Leveret.Proofs.Layout.Postorder

/-!
# The printer is sparing with parentheses

No text of a program has fewer parentheses than the printed one. What a derivation derives has at
least the parentheses that its tree is printed with: where an operand is printed in parentheses it
cannot stand as it is, so the derivation has a group there too. So a printed text that loses a
parenthesis is no longer a text of its program.
-/

namespace Leveret

open Grammar Text

/-! ## Counting -/

def opens (text : String) : Nat := text.toList.count '('

def parens (words : List Lexeme) : Nat := words.countP (·.1 = .openParen)

@[simp]
theorem opens_append (a b : String) : opens (a ++ b) = opens a + opens b := by simp [opens]

@[simp]
theorem parens_append (l l' : List Lexeme) : parens (l ++ l') = parens l + parens l' :=
  List.countP_append

@[simp]
theorem parens_nil : parens [] = 0 := rfl

@[simp]
theorem parens_cons (kind : Kind) (text : String) (l : List Lexeme) :
    parens ((kind, text) :: l) = parens l + if kind = .openParen then 1 else 0 := by
  simp [parens, List.countP_cons]

@[simp]
theorem opens_indent (depth : Nat) : opens (indent depth) = 0 := by
  simp [opens, indent, List.count_replicate]

@[simp]
theorem opens_parenthesised (wrap : Bool) (text : String) :
    opens (parenthesised wrap text) = opens text + if wrap then 1 else 0 := by
  cases wrap <;> simp [parenthesised, opens]

@[simp]
theorem parens_wrapped (wrap : Bool) (words : List Lexeme) :
    parens (wrapped wrap words) = parens words + if wrap then 1 else 0 := by
  cases wrap <;> simp [wrapped]

theorem opens_piece : ∀ piece ∈ ["var ", "const ", "print ", "if ", "while ", "break;\n",
    "continue;\n", " else ", " = ", ";\n", " ", "\n", "\x7b\n", "\x7d"], opens piece = 0 := by
  simp [opens]

@[simp]
theorem opens_operator (op : BinaryOp) : opens op.symbol = 0 := by
  cases op <;> simp [opens, BinaryOp.symbol]

@[simp]
theorem opens_sign (op : UnaryOp) : opens op.symbol = 0 := by
  cases op <;> simp [opens, UnaryOp.symbol]

@[simp]
theorem opens_typePart (ty : Option Ty) : opens (typePart ty) = 0 := by
  cases ty with
  | none => simp [opens, typePart]
  | some ty => cases ty <;> simp [opens, typePart, Ty.name]

@[simp]
theorem parens_typeWords (ty : Option Ty) : parens (typeWords ty) = 0 := by
  cases ty <;> simp [typeWords]

/-! ## Names and constants -/

theorem opens_eq_zero {text : List Char} (h : '(' ∉ text) : opens (String.ofList text) = 0 := by
  rw [opens, String.toList_ofList, List.count_eq_zero]
  exact h

theorem Identifier.opens_eq {name : String} (h : Identifier name) : opens name = 0 := by
  rw [opens, List.count_eq_zero]
  intro hmem
  have hword := h.word
  cases hname : name.toList with
  | nil => simp [hname] at hmem
  | cons c rest =>
    rw [hname, isWord, Bool.and_eq_true, List.all_eq_true] at hword
    rcases List.mem_cons.1 (hname ▸ hmem) with rfl | hmem
    · exact absurd hword.1 (by decide)
    · exact absurd (hword.2 _ hmem) (by decide)

theorem Pointed.not_mem {text : List Char} {d : Decimal} (h : Pointed text d) : '(' ∉ text := by
  obtain ⟨hw, hf, -⟩ := h
  intro hmem
  simp only [List.mem_append, List.mem_cons, Char.reduceEq, false_or] at hmem
  rcases hmem with hmem | hmem
  · exact absurd (hw _ hmem) (by decide)
  · exact absurd (hf _ hmem) (by decide)

theorem Double.format_infinite {x : Double} (h : x.magnitude = infinityMagnitude) :
    x.format = (if x.isNegative then ['-'] else []) ++ ['i', 'n', 'f'] := by
  simp [format, isNaN, isFinite, h]

theorem Value.Read.opens_eq {v : Value} (h : v.Read) : opens v.text = 0 := by
  cases v with
  | bool b => cases b <;> simp [opens, Value.text]
  | int n =>
    have hn : 0 ≤ n.toInt := h.spellable (by rintro _ ⟨⟩)
    rw [Value.text, writeInteger_nonneg hn]
    apply opens_eq_zero
    intro hmem
    exact absurd ((digits_writeNatural _).digit _ hmem) (by decide)
  | float x =>
    apply opens_eq_zero
    by_cases hx : x.magnitude = Double.infinityMagnitude
    · rw [Double.format_infinite hx]
      split <;> simp
    · obtain ⟨hfinite, hsign⟩ : (Value.float x).Spellable := h.spellable (by rintro _ ⟨⟩; exact hx)
      obtain ⟨d, hd, -⟩ := Double.format_pointed hfinite hsign
      exact hd.not_mem

/-- A node whose own words are printed without parentheses. -/
def Part.Flat : Part → Prop := Part.Formed fun v => opens v.text = 0

theorem Written.flat {parts : List Part} (h : Written parts) : ∀ part ∈ parts, part.Flat :=
  fun part hpart => (h part hpart).imp fun _ _ _ hread => hread.opens_eq

theorem Part.Flat.outline {part : Part} (h : part.Flat) : part.outline.Flat := by
  cases part with
  | expr e => cases e <;> exact h
  | stmt s =>
    cases s with
    | declareVar node name ty init =>
      refine ⟨h.1, fun hnone => h.2 ⟨hnone.1, ?_⟩⟩
      rw [outlineInit_eq_map, Option.map_eq_none_iff] at hnone
      exact hnone.2
    | _ => exact h

/-! ## Printed texts -/

mutual

theorem Expr.opens_text (depth : Nat) : (e : Expr) → (∀ part ∈ e.parts, part.Flat) →
    opens (e.text depth) = parens e.words
  | .literal node value, h => by
    have hvalue : opens value.text = 0 := h (.expr (.literal node value)) (by simp [Expr.parts])
    rw [Expr.text, Expr.words, hvalue]
    cases value with
    | bool b => cases b <;> rfl
    | int | float => rfl
  | .unary _ op operand, h => by
    rw [Expr.parts] at h
    have hoperand := operand.opens_text depth (List.forall_mem_append.1 h).1
    have hkind : op.kind ≠ .openParen := by cases op <;> decide
    simp [Expr.text, Expr.words, hoperand, hkind]
  | .binary _ op left right, h => by
    rw [Expr.parts] at h
    obtain ⟨hl, hr⟩ := List.forall_mem_append.1 (List.forall_mem_append.1 h).1
    have hleft := left.opens_text depth hl
    have hright := right.opens_text depth hr
    have hkind : op.kind ≠ .openParen := by cases op <;> decide
    simp [Expr.text, Expr.words, hleft, hright, hkind, opens_piece]
  | .load node name, h => by
    have hname : Identifier name := h (.expr (.load node name)) (by simp [Expr.parts])
    simp [Expr.text, Expr.words, hname.opens_eq]
  | .compound _ body, h => by
    rw [Expr.parts] at h
    exact body.opens_text depth (List.forall_mem_append.1 h).1

theorem Block.opens_text (depth : Nat) : (b : Block) → (∀ part ∈ b.parts, part.Flat) →
    opens (b.text depth) = parens b.words
  | ⟨_, statements⟩, h => by
    rw [Block.parts] at h
    have hinside := opens_textAll (depth + 1) statements h
    simp [Block.text, Block.words, hinside, opens_piece]

theorem Stmt.opens_text (depth : Nat) : (s : Stmt) → (∀ part ∈ s.parts, part.Flat) →
    opens (s.text depth) = parens s.words
  | .declareVar node name ty none, h => by
    have hname : Identifier name :=
      (h (.stmt (.declareVar node name ty none)) (by simp [Stmt.parts])).1
    simp [Stmt.text, Stmt.words, hname.opens_eq, opens_piece]
  | .declareVar node name ty (some init), h => by
    rw [Stmt.parts] at h
    obtain ⟨hinit, hown⟩ := List.forall_mem_append.1 h
    have hname : Identifier name := (hown _ (List.mem_singleton_self _)).1
    simp [Stmt.text, Stmt.words, hname.opens_eq, init.opens_text depth hinit, opens_piece]
  | .declareConst node name ty init, h => by
    rw [Stmt.parts] at h
    obtain ⟨hinit, hown⟩ := List.forall_mem_append.1 h
    have hname : Identifier name := hown _ (List.mem_singleton_self _)
    simp [Stmt.text, Stmt.words, hname.opens_eq, init.opens_text depth hinit, opens_piece]
  | .assign node name value, h => by
    rw [Stmt.parts] at h
    obtain ⟨hvalue, hown⟩ := List.forall_mem_append.1 h
    have hname : Identifier name := hown _ (List.mem_singleton_self _)
    simp [Stmt.text, Stmt.words, hname.opens_eq, value.opens_text depth hvalue, opens_piece]
  | .print _ value, h | .expr _ value, h => by
    rw [Stmt.parts] at h
    have hvalue := value.opens_text depth (List.forall_mem_append.1 h).1
    simp [Stmt.text, Stmt.words, hvalue, opens_piece]
  | .ifElse _ test consequence none, h => by
    rw [Stmt.parts] at h
    obtain ⟨ht, hc⟩ := List.forall_mem_append.1 (List.forall_mem_append.1 h).1
    have htest := test.opens_text depth ht
    have hconsequence := consequence.opens_text depth hc
    simp [Stmt.text, Stmt.words, htest, hconsequence, opens_piece]
  | .ifElse _ test consequence (some alternative), h => by
    rw [Stmt.parts] at h
    obtain ⟨hblocks, ha⟩ := List.forall_mem_append.1 (List.forall_mem_append.1 h).1
    obtain ⟨ht, hc⟩ := List.forall_mem_append.1 hblocks
    have htest := test.opens_text depth ht
    have hconsequence := consequence.opens_text depth hc
    have halternative := alternative.opens_text depth ha
    simp [Stmt.text, Stmt.words, htest, hconsequence, halternative, opens_piece]
    omega
  | .whileLoop _ test body, h => by
    rw [Stmt.parts] at h
    obtain ⟨ht, hb⟩ := List.forall_mem_append.1 (List.forall_mem_append.1 h).1
    have htest := test.opens_text depth ht
    have hbody := body.opens_text depth hb
    simp [Stmt.text, Stmt.words, htest, hbody, opens_piece]
  | .breakLoop _, _ | .continueLoop _, _ => by simp [Stmt.text, Stmt.words, opens_piece]

theorem opens_textAll (depth : Nat) : (list : List Stmt) → (∀ part ∈ partsAll list, part.Flat) →
    opens (textAll depth list) = parens (wordsAll list)
  | [], _ => by simp [textAll, wordsAll, opens]
  | s :: rest, h => by
    rw [partsAll] at h
    obtain ⟨hs, hrest⟩ := List.forall_mem_append.1 h
    simp [textAll, wordsAll, s.opens_text depth hs, opens_textAll depth rest hrest]

end

/-! ## Derivations -/

namespace Grammar

def groups (tokens : List Token) : Nat := parens (tokens.map Token.lexeme)

@[simp]
theorem groups_nil : groups [] = 0 := rfl

@[simp]
theorem groups_cons (t : Token) (l : List Token) :
    groups (t :: l) = groups l + if t.kind = .openParen then 1 else 0 := parens_cons ..

@[simp]
theorem groups_append (l l' : List Token) : groups (l ++ l') = groups l + groups l' := by
  simp [groups]

theorem tier_of_mem {tier : Tier} {kind : Kind} {op : BinaryOp}
    (h : (kind, op) ∈ tier.operators) : op.tier = tier := by
  have hall : ∀ entry ∈ tier.operators, entry.2.tier = tier := by cases tier <;> decide
  exact hall _ h

/-- What an expression costs as an operand of a level: its own parentheses, and one pair more if
it is too loose for the level. -/
def cost (level : Level) (e : Expr) : Nat :=
  parens e.words + if e.level.rank < level.rank then 1 else 0

theorem cost_mono {level level' : Level} (h : level.rank ≤ level'.rank) (e : Expr) :
    cost level e ≤ cost level' e := by
  unfold cost
  split <;> split <;> omega

theorem cost_of_level {level : Level} {e : Expr} (h : e.level = level) :
    cost level e = parens e.words := by
  unfold cost
  rw [h, if_neg (Nat.lt_irrefl _), Nat.add_zero]

theorem parens_le_cost (level : Level) (e : Expr) : parens e.words ≤ cost level e := by
  unfold cost
  omega

theorem parens_le_of_cost {level : Level} {e : Expr} {n : Nat} (h : cost level e ≤ n) :
    parens e.words ≤ n := Nat.le_trans (parens_le_cost level e) h

theorem wrapped_le_cost {loose : Nat → Bool} {level : Level} {e : Expr}
    (h : ∀ op : BinaryOp, loose op.precedence = true → op.precedence < level.rank) :
    parens (wrapped (e.wraps loose) e.words) ≤ cost level e := by
  rw [parens_wrapped]
  cases e with
  | binary node op left right =>
    have hwraps : (Expr.binary node op left right).wraps loose = loose op.precedence := rfl
    have hrank : (Expr.binary node op left right).level.rank = op.precedence := op.rank_tier
    rw [hwraps, cost, hrank]
    split
    · rename_i hloose
      simp only [if_pos (h op hloose), Nat.le_refl]
    · omega
  | _ => exact parens_le_cost ..

/-- One more operator of a tier costs what its two operands cost. -/
theorem cost_binary_le {tier : Tier} (operator : Operator tier) (left right : Expr) :
    cost (.tier tier) (.binary default operator.op left right) ≤
      cost (.tier tier) left + cost tier.operands right := by
  have htier := tier_of_mem operator.listed
  have hrank : tier.power.rank = operator.op.precedence := by
    rw [← operator.op.rank_tier, htier]
  have hoperands : operator.op.precedence < tier.operands.rank := by
    rw [← hrank]
    exact rank_lt_operands tier
  have hleft := @wrapped_le_cost (· < operator.op.precedence) (.tier tier) left fun op hop =>
    Nat.lt_of_lt_of_eq (of_decide_eq_true hop) hrank.symm
  have hright := @wrapped_le_cost (· ≤ operator.op.precedence) tier.operands right fun op hop =>
    Nat.lt_of_le_of_lt (of_decide_eq_true hop) hoperands
  have hkind : operator.op.kind ≠ .openParen := by cases operator.op <;> decide
  have hlevel : (Expr.binary default operator.op left right).level = .tier tier :=
    congrArg Level.tier htier
  rw [cost_of_level hlevel, Expr.words, parens_append, parens_cons, if_neg hkind]
  omega

mutual

/-- What is derived has the parentheses that its tree is printed with, or more. -/
theorem Phrase.cost_le : {level : Level} → (p : Phrase level) →
    cost level p.tree ≤ groups p.tokens
  | .tier tier, .chain first more => by
    rw [Phrase.tree, Phrase.tokens, groups_append]
    have hfirst := first.cost_le
    have hmore := more.cost_le first.tree
    have hloosen := @cost_mono (.tier tier) _ (Nat.le_of_lt (rank_lt_operands tier)) first.tree
    omega
  | _, .signed sign operand => by
    have hoperand := operand.cost_le
    have hwrapped := @wrapped_le_cost (fun _ => true) .unary operand.tree fun op _ => by
      rw [← op.rank_tier]
      exact power_rank_lt _
    have hkind : sign.op.kind ≠ .openParen := by cases sign.op <;> decide
    rw [Phrase.tree, Phrase.tokens, groups_cons, @cost_of_level .unary _ rfl, Expr.words,
      parens_cons, if_neg hkind]
    omega
  | _, .unsigned operand => by
    rw [Phrase.tree, Phrase.tokens]
    exact Nat.le_trans (cost_mono (by decide) _) operand.cost_le
  | _, .constant constant => by
    have hkind : constant.value.kind ≠ .openParen := by
      cases constant.value with
      | bool b => cases b <;> exact nofun
      | _ => exact nofun
    rw [Phrase.tree, @cost_of_level .primary _ rfl, Expr.words, parens_cons, if_neg hkind]
    exact Nat.zero_le _
  | _, .name name => by
    rw [Phrase.tree, @cost_of_level .primary _ rfl, Expr.words, parens_cons]
    exact Nat.zero_le _
  | _, .group opening inner closing => by
    have hinner := parens_le_of_cost inner.cost_le
    rw [Phrase.tree, Phrase.tokens, cost]
    simp only [List.cons_append, groups_cons, groups_append, opening.kind_eq, if_true]
    split <;> omega
  | _, .compound body => by
    rw [Phrase.tree, Phrase.tokens, @cost_of_level .primary _ rfl]
    exact body.cost_le

theorem Chain.cost_le {tier : Tier} : (chain : Chain tier) → (left : Expr) →
    cost (.tier tier) (chain.tree left) ≤ cost (.tier tier) left + groups chain.tokens
  | .nil, left => Nat.le_refl _
  | .cons operator operand more, left => by
    have hoperand := operand.cost_le
    have hbinary := cost_binary_le operator left operand.tree
    have hmore := more.cost_le (.binary default operator.op left operand.tree)
    rw [Chain.tree, Chain.tokens]
    simp only [List.cons_append, groups_cons, groups_append]
    omega

theorem Braces.cost_le : (b : Braces) → parens b.tree.words ≤ groups b.tokens
  | .mk opening inside closing => by
    have hinside := inside.cost_le
    rw [Braces.tree, Braces.tokens, Block.words]
    simp
    omega

theorem Conditional.cost_le : (c : Conditional) → parens c.tree.words ≤ groups c.tokens
  | .only word test consequence => by
    have htest := parens_le_of_cost test.cost_le
    have hconsequence := consequence.cost_le
    simp [Conditional.tree, Conditional.tokens, Stmt.words]
    omega
  | .otherwise word test consequence word' alternative => by
    have htest := parens_le_of_cost test.cost_le
    have hconsequence := consequence.cost_le
    have halternative := alternative.cost_le
    simp [Conditional.tree, Conditional.tokens, Stmt.words]
    omega
  | .elseIf word test consequence word' alternative => by
    have htest := parens_le_of_cost test.cost_le
    have hconsequence := consequence.cost_le
    have halternative := alternative.cost_le
    simp [Conditional.tree, Conditional.tokens, Stmt.words, Block.words, wordsAll]
    omega

theorem Sentence.cost_le : (s : Sentence) → parens s.tree.words ≤ groups s.tokens
  | .varZero word name ty semicolon => by simp [Sentence.tree, Stmt.words]
  | .varInit word name ty equals init semicolon | .const word name ty equals init semicolon => by
    have hinit := parens_le_of_cost init.cost_le
    simp [Sentence.tree, Sentence.tokens, Stmt.words]
    omega
  | .assign name equals value semicolon => by
    have hvalue := parens_le_of_cost value.cost_le
    simp [Sentence.tree, Sentence.tokens, Stmt.words]
    omega
  | .print word value semicolon | .expr value semicolon => by
    have hvalue := parens_le_of_cost value.cost_le
    simp [Sentence.tree, Sentence.tokens, Stmt.words]
    omega
  | .conditional conditional => conditional.cost_le
  | .whileLoop word test body => by
    have htest := parens_le_of_cost test.cost_le
    have hbody := body.cost_le
    simp [Sentence.tree, Sentence.tokens, Stmt.words]
    omega
  | .breakLoop word semicolon | .continueLoop word semicolon => by
    simp [Sentence.tree, Stmt.words]

theorem Sentences.cost_le : (list : Sentences) → parens (wordsAll list.tree) ≤ groups list.tokens
  | .nil => Nat.le_refl _
  | .cons sentence rest => by
    have hsentence := sentence.cost_le
    have hrest := rest.cost_le
    rw [Sentences.tree, Sentences.tokens, wordsAll, parens_append, groups_append]
    omega

end

end Grammar

/-! ## Tokens -/

theorem Pattern.eq_paren {p : Pattern} {lexeme : List Char} (hp : p ∈ Pattern.all)
    (h : p.kind? lexeme = some .openParen) : p = .mark .openParen ['('] := by
  cases p with
  | blanks | lineComment | blockComment | decimal | digits => cases h
  | word =>
    have hreserved : ∀ entry ∈ Kind.reserved, entry.2 ≠ .openParen := by decide
    simp only [kind?, Option.some.injEq] at h
    cases hword : Kind.ofWord? (String.ofList lexeme) with
    | none =>
      rw [hword] at h
      cases h
    | some kind =>
      rw [hword] at h
      exact absurd h (hreserved _ (mem_reserved hword))
  | mark kind text =>
    have hmarks : ∀ q ∈ Pattern.all, q.kind? [] = some .openParen → q = .word ∨
        q = .mark .openParen ['('] := by decide
    exact (hmarks _ hp h).resolve_left nofun

theorem Token.groups_of_scan {file : String} {text : List Char} {skip offset : Nat}
    {tokens : List Token} (h : scan file skip offset text = .ok tokens) :
    groups tokens ≤ text.count '(' := by
  induction text generalizing skip offset tokens with
  | nil =>
    rw [scan] at h
    cases h
    exact Nat.le_refl 0
  | cons c rest ih =>
    cases skip with
    | succ skip =>
      rw [scan] at h
      exact Nat.le_trans (ih h) List.count_le_count_cons
    | zero =>
      rw [scan] at h
      split at h
      · cases h
      · rename_i pattern lexeme hfirst
        dsimp only at h
        split at h
        · exact Nat.le_trans (ih h) List.count_le_count_cons
        · rename_i kind hkind
          obtain ⟨more, hmore, rfl⟩ := map_eq_ok.1 h
          have hrest := ih hmore
          rw [groups_cons, List.count_cons]
          split
          · rename_i hparen
            obtain ⟨hp, hlexeme⟩ := of_first? hfirst
            obtain rfl := Pattern.eq_paren hp (hkind.trans (congrArg some hparen))
            have hc : c = '(' := by
              simp [Pattern.lexeme?] at hlexeme
              exact hlexeme.1.symm
            rw [if_pos (beq_iff_eq.2 hc)]
            omega
          · omega

/-! ## Whole programs -/

namespace Program

variable {source source' file file' : String} {p q : Program}

theorem opens_text (h : ofSource source file = .ok p) :
    opens p.text = parens (wordsAll p.outline) := by
  have hflat : ∀ part ∈ partsAll p.outline, part.Flat := by
    unfold outline
    rw [partsAll_outline]
    intro _ hmem
    obtain ⟨part, hpart, rfl⟩ := List.mem_map.1 hmem
    exact ((written_ofSource h).flat part hpart).outline
  rw [← opens_textAll 0 _ hflat]
  unfold outline text
  rw [textAll_outline]

/-- A text has the parentheses that its program is printed with, or more. -/
theorem opens_text_le (h : ofSource source file = .ok p) : opens p.text ≤ opens source := by
  obtain ⟨tokens, hscan, hp⟩ := bind_eq_ok.1 h
  obtain ⟨words, eof, rfl, heof, hplain⟩ := Token.plain_of_scan hscan
  obtain ⟨d, rfl, htree⟩ := exists_derivation heof (fun t ht => (hplain t ht).kind_ne) hp
  have hgroups := Token.groups_of_scan hscan
  rw [groups_append] at hgroups
  calc opens p.text = parens (wordsAll d.tree) := by rw [opens_text h, htree]
    _ ≤ groups d.tokens := d.cost_le
    _ ≤ opens source := Nat.le_trans (Nat.le_add_right ..) hgroups

/-- A program that was read is printed with no parentheses that could be left out: without a pair
of them its text is no program any more, or another one. -/
theorem text_parentheses_minimal {before inside after : List Char}
    (h : ofSource source file = .ok p)
    (htext : p.text.toList = before ++ '(' :: (inside ++ ')' :: after))
    (hq : ofSource (String.ofList (before ++ (inside ++ after))) file' = .ok q) :
    p.same q = false := by
  rw [Bool.eq_false_iff]
  intro hsame
  have hprinted : q.text = p.text := (text_of_outline (outline_of_same h hq hsame)).symm
  have hle := opens_text_le hq
  rw [hprinted] at hle
  unfold opens at hle
  rw [htext, String.toList_ofList] at hle
  simp only [List.count_append, List.count_cons_self] at hle
  have hclosing : after.count '(' ≤ (')' :: after).count '(' := List.count_le_count_cons
  omega

theorem exists_text_parentheses_minimal : ∃ p q,
    ofSource "print a - (b - (c * d));" "typed" = .ok p ∧
    p.text.toList = "print a - ".toList ++ '(' :: ("b - c * d".toList ++ ')' :: ";\n".toList) ∧
    ofSource "print a - b - c * d;\n" "bare" = .ok q ∧ p.same q = false := by
  have hparse : (ofSource "print a - (b - (c * d));" "typed").toOption.bind (fun p =>
      (ofSource "print a - b - c * d;\n" "bare").toOption.map fun _ => p.text) =
        some "print a - (b - c * d);\n" := by
    decide +kernel
  obtain ⟨p, hp, hparse⟩ := Option.bind_eq_some_iff.1 hparse
  obtain ⟨q, hq, htext⟩ := Option.map_eq_some_iff.1 hparse
  have hp := toOption_eq_some.1 hp
  have hq := toOption_eq_some.1 hq
  have hsplit : p.text.toList =
      "print a - ".toList ++ '(' :: ("b - c * d".toList ++ ')' :: ";\n".toList) := by
    rw [htext]
    decide
  exact ⟨p, q, hp, hsplit, hq, text_parentheses_minimal hp hsplit hq⟩

end Program

end Leveret
