import Leveret.Proofs.Parsing.Reading

/-!
# Runs of the parser

A run that succeeds has read what `Reads` says, and whatever can be read is read by a run whose
budget is large enough.
-/

namespace Leveret

namespace Parser

/-! ## From runs to the relation -/

def Reaches {α : Type} (g : Goal) (piece : α → Piece) (p : Parser α) : Prop :=
  ∀ c a d, c.Closed → p.run c = .ok a d → Reads g c (piece a) d

section Reaching

variable {expr : Power → Parser Expr} {block : Parser Block} {conditional : Parser Stmt}
  {c d : Cursor}

theorem number_reads {e : Expr} (hc : c.Closed) (hk : c.kind ≠ .endOfFile) {value : Option Value}
    (hv : c.current.literal? = value) (h : (number c.current value).run c = .ok e d) :
    Reads .operand c (.expr e) d := by
  cases value with
  | none => simp [number, run_throw] at h
  | some v =>
    rw [number, leaf, run_bind_of_ok (advance_run c), run_bind_of_ok (freshNode_run _ _)] at h
    cases h
    exact .literal (Cursor.next_of_kind hc hk) hv

theorem primary_reads {e : Expr} (hc : c.Closed) (h : primary.run c = .ok e d) :
    Reads .operand c (.expr e) d := by
  rw [primary, run_get_bind] at h
  dsimp only at h
  have hk : c.current.kind = c.kind := rfl
  split at h
  case h_1 hi => exact number_reads hc (by simp [← hk, hi]) (by simp [Token.literal?, hi]) h
  case h_2 hi => exact number_reads hc (by simp [← hk, hi]) (by simp [Token.literal?, hi]) h
  case h_3 hi =>
    cases h
    exact .literal (Cursor.next_of_kind hc (by simp [← hk, hi])) (by simp [Token.literal?, hi])
  case h_4 hi =>
    cases h
    exact .literal (Cursor.next_of_kind hc (by simp [← hk, hi])) (by simp [Token.literal?, hi])
  case h_5 hi =>
    cases h
    exact .name (Cursor.next_of_kind hc (by simp [← hk, hi])) hi
  case h_6 => simp [unexpected, run_throw] at h

theorem signed_reads {e : Expr} (hexpr : ∀ power, Reaches (.expr power) .expr (expr power))
    (hc : c.Closed) (hk : c.kind ≠ .endOfFile) (h : (signed expr).run c = .ok e d) :
    Reads .operand c (.expr e) d := by
  have hn := Cursor.next_of_kind hc hk
  rw [signed, run_bind_of_ok (advance_run c)] at h
  split at h
  · simp [notOperator, run_throw] at h
  · rename_i op hop
    obtain ⟨e', d', he, h⟩ := run_bind_eq_ok.1 h
    cases h
    exact .signed hn hop (hexpr _ _ _ _ (hn.closed hc) he)

theorem grouping_reads {e : Expr} (hexpr : ∀ power, Reaches (.expr power) .expr (expr power))
    (hc : c.Closed) (h : (grouping expr).run c = .ok e d) : Reads .operand c (.expr e) d := by
  obtain ⟨t, c₁, ht, h⟩ := run_bind_eq_ok.1 h
  obtain ⟨ht, hk⟩ := (expect_eq_ok hc (by decide)).1 ht
  obtain ⟨e', c₂, he, h⟩ := run_bind_eq_ok.1 h
  have hr := hexpr _ _ _ _ (ht.closed hc) he
  obtain ⟨t', c₃, ht', h⟩ := run_bind_eq_ok.1 h
  obtain ⟨ht', hk'⟩ := (expect_eq_ok (hr.closed (ht.closed hc)) (by decide)).1 ht'
  cases h
  exact .group ht hk hr ht' hk'

theorem operand_reaches (hexpr : ∀ power, Reaches (.expr power) .expr (expr power))
    (hblock : Reaches .block .block block) : Reaches .operand .expr (operand expr block) := by
  intro c e d hc h
  rw [operand, run_get_bind] at h
  split at h
  case h_6 hk => exact signed_reads hexpr hc (by simp [hk]) h
  case h_7 hk => exact signed_reads hexpr hc (by simp [hk]) h
  case h_8 => exact grouping_reads hexpr hc h
  case h_9 hk =>
    obtain ⟨b, c', hb, h⟩ := run_bind_eq_ok.1 h
    cases h
    exact .compound hk (hblock _ _ _ hc hb)
  case h_10 => split at h <;> simp [unexpected, failHere, run_throw] at h
  all_goals exact primary_reads hc h

theorem binary_reads {left e : Expr} (hexpr : ∀ power, Reaches (.expr power) .expr (expr power))
    (hc : c.Closed) (hk : c.kind ≠ .endOfFile) (h : (binary expr left c.kind.power).run c = .ok e d) :
    ∃ t c₁ op right c₂, c.Next t c₁ ∧ BinaryOp.ofKind? t.kind = some op ∧
      Reads (.expr t.kind.power) c₁ (.expr right) c₂ ∧ d = c₂.tick ∧
      e = .binary ⟨c₂.nextId, ⟨left.node.span.start, right.node.span.stop⟩⟩ op left right := by
  have hn := Cursor.next_of_kind hc hk
  rw [binary, run_bind_of_ok (advance_run c)] at h
  split at h
  · simp [notOperator, run_throw] at h
  · rename_i op hop
    obtain ⟨right, c₂, hr, h⟩ := run_bind_eq_ok.1 h
    cases h
    exact ⟨_, _, op, right, c₂, hn, hop, hexpr _ _ _ _ (hn.closed hc) hr, rfl, rfl⟩

theorem braced_reaches {body : Parser (List Stmt)} (hbody : Reaches .body .stmts body) :
    Reaches .block .block (braced body) := by
  intro c b d hc h
  obtain ⟨t, c₁, ht, h⟩ := run_bind_eq_ok.1 h
  obtain ⟨ht, hk⟩ := (expect_eq_ok hc (by decide)).1 ht
  obtain ⟨inside, c₂, hi, h⟩ := run_bind_eq_ok.1 h
  have hr := hbody _ _ _ (ht.closed hc) hi
  obtain ⟨t', c₃, ht', h⟩ := run_bind_eq_ok.1 h
  obtain ⟨ht', hk'⟩ := (expect_eq_ok (hr.closed (ht.closed hc)) (by decide)).1 ht'
  cases h
  exact .block ht hk hr ht' hk'

/-! ### Statements -/

theorem semicolon_next {t : Token} (hc : c.Closed) (h : (expect .semicolon).run c = .ok t d) :
    c.Next t d ∧ t.kind = .semicolon := (expect_eq_ok hc (by decide)).1 h

theorem initializer?_reads {init : Option Expr} (hexpr : ∀ power, Reaches (.expr power) .expr (expr power))
    (hc : c.Closed) (h : (initializer? (expr .lowest)).run c = .ok init d) :
    (init = none ∧ c.kind ≠ .assignment ∧ d = c) ∨
    ∃ t c₁ e, init = some e ∧ c.Next t c₁ ∧ t.kind = .assignment ∧
      Reads (.expr .lowest) c₁ (.expr e) d := by
  rw [initializer?, run_get_bind] at h
  split at h
  · rename_i hk
    have hn := Cursor.next_of_kind hc (by rw [hk]; decide)
    rw [run_bind_of_ok (advance_run c)] at h
    obtain ⟨e, d', he, h⟩ := run_bind_eq_ok.1 h
    cases h
    exact .inr ⟨_, _, e, rfl, hn, hk, hexpr _ _ _ _ (hn.closed hc) he⟩
  · rename_i hk
    cases h
    exact .inl ⟨rfl, hk, rfl⟩

theorem varDeclaration_reads {s : Stmt} (hexpr : ∀ power, Reaches (.expr power) .expr (expr power))
    (hc : c.Closed) (hk : c.kind = .varWord) (h : (varDeclaration (expr .lowest)).run c = .ok s d) :
    Reads .statement c (.stmt s) d := by
  have hn := Cursor.next_of_kind hc (by rw [hk]; decide)
  rw [varDeclaration, run_bind_of_ok (advance_run c)] at h
  obtain ⟨name, c₂, hname, h⟩ := run_bind_eq_ok.1 h
  obtain ⟨hname, hid⟩ := (expectDetailed_eq_ok (hn.closed hc) (by decide)).1 hname
  have hc₂ := hname.closed (hn.closed hc)
  obtain ⟨declared, c₃, hty, h⟩ := run_bind_eq_ok.1 h
  have hty := (typeName?_eq_ok hc₂).1 hty
  have hc₃ := hty.closed hc₂
  replace h := run_bind_eq_ok.1 h
  obtain ⟨init, c₄, hinit, h⟩ := h
  rcases initializer?_reads hexpr hc₃ hinit with ⟨rfl, -, rfl⟩ | ⟨eq, c₄', e, rfl, heq, hek, he⟩
  · cases declared with
    | none => simp [failHere, run_throw] at h
    | some ty =>
      simp only [Option.isNone_some, Bool.false_and, Bool.false_eq_true, if_false] at h
      obtain ⟨t', c', hs, h⟩ := run_bind_eq_ok.1 h
      obtain ⟨hs, hsk⟩ := semicolon_next hc₃ hs
      cases h
      exact .varZero hn hk hname hid hty hs hsk
  · simp only [Option.isNone_some, Bool.and_false, Bool.false_eq_true, if_false] at h
    obtain ⟨t', c', hs, h⟩ := run_bind_eq_ok.1 h
    obtain ⟨hs, hsk⟩ := semicolon_next (he.closed (heq.closed hc₃)) hs
    cases h
    exact .varInit hn hk hname hid hty heq hek he hs hsk

theorem constDeclaration_reads {s : Stmt}
    (hexpr : ∀ power, Reaches (.expr power) .expr (expr power)) (hc : c.Closed)
    (hk : c.kind = .constWord) (h : (constDeclaration (expr .lowest)).run c = .ok s d) :
    Reads .statement c (.stmt s) d := by
  have hn := Cursor.next_of_kind hc (by rw [hk]; decide)
  rw [constDeclaration, run_bind_of_ok (advance_run c)] at h
  obtain ⟨name, c₂, hname, h⟩ := run_bind_eq_ok.1 h
  obtain ⟨hname, hid⟩ := (expectDetailed_eq_ok (hn.closed hc) (by decide)).1 hname
  have hc₂ := hname.closed (hn.closed hc)
  obtain ⟨declared, c₃, hty, h⟩ := run_bind_eq_ok.1 h
  have hty := (typeName?_eq_ok hc₂).1 hty
  have hc₃ := hty.closed hc₂
  replace h := run_bind_eq_ok.1 h
  obtain ⟨init, c₄, hinit, h⟩ := h
  rcases initializer?_reads hexpr hc₃ hinit with ⟨rfl, -, rfl⟩ | ⟨eq, c₄', e, rfl, heq, hek, he⟩
  · simp [failHere, run_throw] at h
  · obtain ⟨t', c', hs, h⟩ := run_bind_eq_ok.1 h
    obtain ⟨hs, hsk⟩ := semicolon_next (he.closed (heq.closed hc₃)) hs
    cases h
    exact .const hn hk hname hid hty heq hek he hs hsk

theorem assignment_reads {s : Stmt} (hexpr : ∀ power, Reaches (.expr power) .expr (expr power))
    (hc : c.Closed) (h : (assignment (expr .lowest)).run c = .ok s d) :
    Reads .statement c (.stmt s) d := by
  obtain ⟨name, c₁, hname, h⟩ := run_bind_eq_ok.1 h
  obtain ⟨hname, hid⟩ := (expect_eq_ok hc (by decide)).1 hname
  have hc₁ := hname.closed hc
  obtain ⟨eq, c₂, heq, h⟩ := run_bind_eq_ok.1 h
  obtain ⟨heq, hek⟩ := (expect_eq_ok hc₁ (by decide)).1 heq
  have hc₂ := heq.closed hc₁
  obtain ⟨e, c₃, he, h⟩ := run_bind_eq_ok.1 h
  have he := hexpr _ _ _ _ hc₂ he
  obtain ⟨t', c', hs, h⟩ := run_bind_eq_ok.1 h
  obtain ⟨hs, hsk⟩ := semicolon_next (he.closed hc₂) hs
  cases h
  exact .assign hname hid heq hek he hs hsk

theorem printing_reads {s : Stmt} (hexpr : ∀ power, Reaches (.expr power) .expr (expr power))
    (hc : c.Closed) (hk : c.kind = .printWord) (h : (printing (expr .lowest)).run c = .ok s d) :
    Reads .statement c (.stmt s) d := by
  have hn := Cursor.next_of_kind hc (by rw [hk]; decide)
  rw [printing, run_bind_of_ok (advance_run c)] at h
  obtain ⟨e, c₂, he, h⟩ := run_bind_eq_ok.1 h
  have he := hexpr _ _ _ _ (hn.closed hc) he
  obtain ⟨t', c', hs, h⟩ := run_bind_eq_ok.1 h
  obtain ⟨hs, hsk⟩ := semicolon_next (he.closed (hn.closed hc)) hs
  cases h
  exact .print hn hk he hs hsk

theorem whileLoop_reads {s : Stmt} (hexpr : ∀ power, Reaches (.expr power) .expr (expr power))
    (hblock : Reaches .block .block block) (hc : c.Closed) (hk : c.kind = .whileWord)
    (h : (whileLoop (expr .lowest) block).run c = .ok s d) : Reads .statement c (.stmt s) d := by
  have hn := Cursor.next_of_kind hc (by rw [hk]; decide)
  rw [whileLoop, run_bind_of_ok (advance_run c)] at h
  obtain ⟨e, c₂, he, h⟩ := run_bind_eq_ok.1 h
  have he := hexpr _ _ _ _ (hn.closed hc) he
  obtain ⟨b, c₃, hb, h⟩ := run_bind_eq_ok.1 h
  have hb := hblock _ _ _ (he.closed (hn.closed hc)) hb
  cases h
  exact .whileLoop hn hk he hb

theorem loopControl_reads {s : Stmt} (hc : c.Closed)
    (hk : c.kind = .breakWord ∨ c.kind = .continueWord) (h : loopControl.run c = .ok s d) :
    Reads .statement c (.stmt s) d := by
  have hn := Cursor.next_of_kind hc (by rcases hk with hk | hk <;> simp [hk])
  rw [loopControl, run_bind_of_ok (advance_run c)] at h
  obtain ⟨t', c', hs, h⟩ := run_bind_eq_ok.1 h
  obtain ⟨hs, hsk⟩ := semicolon_next (hn.closed hc) hs
  rw [run_bind_of_ok (closeNode_run _ _)] at h
  cases h
  rcases hk with hk | hk
  · rw [Cursor.kind] at hk
    simp only [hk, if_true]
    exact .breakLoop hn hk hs hsk
  · rw [Cursor.kind] at hk
    simp only [hk, reduceCtorEq, if_false]
    exact .continueLoop hn hk hs hsk

theorem exprStatement_reads {s : Stmt} (hexpr : ∀ power, Reaches (.expr power) .expr (expr power))
    (hc : c.Closed) (hk : c.kind.startsStatement = false)
    (ha : ¬ (c.kind = .identifier ∧ c.nextKind = .assignment))
    (h : (exprStatement (expr .lowest)).run c = .ok s d) : Reads .statement c (.stmt s) d := by
  rw [exprStatement, run_get_bind] at h
  obtain ⟨e, c₂, he, h⟩ := run_bind_eq_ok.1 h
  have he := hexpr _ _ _ _ hc he
  obtain ⟨t', c', hs, h⟩ := run_bind_eq_ok.1 h
  obtain ⟨hs, hsk⟩ := semicolon_next (he.closed hc) hs
  cases h
  exact .exprStatement hk ha he hs hsk

/-- A conditional is only asked for where one begins. -/
def ReachesConditional (p : Parser Stmt) : Prop :=
  ∀ c s d, c.Closed → c.kind = .ifWord → p.run c = .ok s d → Reads .conditional c (.stmt s) d

theorem ifElse_reaches (hexpr : ∀ power, Reaches (.expr power) .expr (expr power))
    (hblock : Reaches .block .block block) (hcond : ReachesConditional conditional) :
    ReachesConditional (ifElse (expr .lowest) block conditional) := by
  intro c s d hc hk h
  have hn := Cursor.next_of_kind hc (by rw [hk]; decide)
  rw [ifElse, run_bind_of_ok (advance_run c)] at h
  obtain ⟨e, c₂, he, h⟩ := run_bind_eq_ok.1 h
  have he := hexpr _ _ _ _ (hn.closed hc) he
  have hc₂ := he.closed (hn.closed hc)
  obtain ⟨b, c₃, hb, h⟩ := run_bind_eq_ok.1 h
  have hb := hblock _ _ _ hc₂ hb
  have hc₃ := hb.closed hc₂
  rw [run_get_bind] at h
  split at h
  · rename_i hek
    have hn' := Cursor.next_of_kind hc₃ (by rw [hek]; decide)
    have hc₄ := hn'.closed hc₃
    rw [run_bind_of_ok (advance_run c₃)] at h
    simp only [otherwise, bind_assoc, run_get_bind] at h
    split at h
    · rename_i hik
      simp only [bind_assoc] at h
      obtain ⟨nested, c₅, hs, h⟩ := run_bind_eq_ok.1 h
      cases h
      exact .ifChain hn hk he hb hn' hek hik (hcond _ _ _ hc₄ hik hs)
    · rename_i hik
      obtain ⟨b', c₅, hb', h⟩ := run_bind_eq_ok.1 h
      cases h
      exact .ifElse hn hk he hb hn' hek hik (hblock _ _ _ hc₄ hb')
  · rename_i hek
    cases h
    exact .ifOnly hn hk he hb hek

theorem statement_reaches (hexpr : ∀ power, Reaches (.expr power) .expr (expr power))
    (hblock : Reaches .block .block block) (hcond : ReachesConditional conditional) :
    Reaches .statement .stmt (statement (expr .lowest) block conditional) := by
  intro c s d hc h
  rw [statement, run_get_bind] at h
  split at h
  case h_1 hk => exact varDeclaration_reads hexpr hc hk h
  case h_2 hk => exact constDeclaration_reads hexpr hc hk h
  case h_3 hk => exact printing_reads hexpr hc hk h
  case h_4 hk => exact .conditional hk (hcond _ _ _ hc hk h)
  case h_5 hk => exact whileLoop_reads hexpr hblock hc hk h
  case h_6 hk => exact loopControl_reads hc (.inl hk) h
  case h_7 hk => exact loopControl_reads hc (.inr hk) h
  case h_8 hk =>
    split at h
    · exact assignment_reads hexpr hc h
    · rename_i ha
      exact exprStatement_reads hexpr hc (by rw [hk]; rfl) (fun h' => ha h'.2) h
  case h_9 =>
    refine exprStatement_reads hexpr hc ?_ (fun h' => by simp_all) h
    cases hk : c.kind <;> simp_all [Kind.startsStatement]

end Reaching

structure AllReach (fuel : Nat) : Prop where
  expr (power : Power) : Reaches (.expr power) .expr (Parser.expr fuel power)
  extend (power : Power) (left : Expr) :
    Reaches (.extend power left) .expr (Parser.extend fuel power left)
  block : Reaches .block .block (Parser.block fuel)
  body : Reaches .body .stmts (blockStatements fuel)
  conditional : ReachesConditional (Parser.conditional fuel)
  stmt : Reaches .statement .stmt (Parser.stmt fuel)

theorem unexpected_ne_ok {α : Type} {a : α} {c d : Cursor} :
    (unexpected : Parser α).run c ≠ .ok a d := by
  simp [unexpected, run_throw]

theorem allReach_zero : AllReach 0 where
  expr _ _ _ _ _ h := absurd h unexpected_ne_ok
  extend _ _ _ _ _ _ h := absurd h unexpected_ne_ok
  block _ _ _ _ h := absurd h unexpected_ne_ok
  body _ _ _ _ h := absurd h unexpected_ne_ok
  conditional _ _ _ _ _ h := absurd h unexpected_ne_ok
  stmt _ _ _ _ h := absurd h unexpected_ne_ok

section Step

variable {fuel : Nat} (ih : AllReach fuel)
include ih

theorem expr_reaches (power : Power) :
    Reaches (.expr power) .expr (Parser.expr (fuel + 1) power) := by
  intro c e d hc h
  rw [Parser.expr] at h
  obtain ⟨left, c₁, hl, h⟩ := run_bind_eq_ok.1 h
  have hl := operand_reaches ih.expr ih.block _ _ _ hc hl
  exact .expr hl (ih.extend power left _ _ _ (hl.closed hc) h)

theorem extend_reaches (power : Power) (left : Expr) :
    Reaches (.extend power left) .expr (Parser.extend (fuel + 1) power left) := by
  intro c e d hc h
  rw [Parser.extend, run_get_bind] at h
  dsimp only at h
  split at h
  · rename_i hp
    have hk : c.kind ≠ .endOfFile := by
      intro hk
      rw [hk] at hp
      exact absurd hp (by cases power <;> decide)
    obtain ⟨more, c₁, hm, h⟩ := run_bind_eq_ok.1 h
    obtain ⟨t, c₂, op, right, c₃, hn, hop, hr, rfl, rfl⟩ := binary_reads ih.expr hc hk hm
    have hc₃ : c₃.tick.Closed := hr.closed (hn.closed hc)
    exact .join (hn.kind ▸ hp) hn hop hr (ih.extend power _ _ _ _ hc₃ h)
  · rename_i hp
    cases h
    exact .stop hp

theorem body_reaches : Reaches .body .stmts (blockStatements (fuel + 1)) := by
  intro c l d hc h
  rw [blockStatements, run_get_bind] at h
  split at h
  · rename_i hk
    cases h
    exact .bodyEnd hk
  · simp [failHere, run_throw] at h
  · rename_i hk hk'
    obtain ⟨s, c₁, hs, h⟩ := run_bind_eq_ok.1 h
    have hs := ih.stmt _ _ _ hc hs
    obtain ⟨rest, c₂, hr, h⟩ := run_bind_eq_ok.1 h
    cases h
    exact .bodyNext hk hk' hs (ih.body _ _ _ (hs.closed hc) hr)

end Step

theorem allReach (fuel : Nat) : AllReach fuel := by
  induction fuel with
  | zero => exact allReach_zero
  | succ fuel ih =>
    exact {
      expr := expr_reaches ih
      extend := extend_reaches ih
      block := braced_reaches ih.body
      body := body_reaches ih
      conditional := ifElse_reaches ih.expr ih.block ih.conditional
      stmt := statement_reaches ih.expr ih.block ih.conditional }

theorem statements_reaches (fuel : Nat) : Reaches .program .stmts (statements fuel) := by
  intro c l d hc h
  induction fuel generalizing c l with
  | zero => exact absurd h unexpected_ne_ok
  | succ fuel ih =>
    rw [statements, run_get_bind] at h
    split at h
    · rename_i hk
      cases h
      exact .programEnd (of_decide_eq_true hk)
    · rename_i hk
      have hk : c.kind ≠ .endOfFile := fun h' => hk (decide_eq_true h')
      obtain ⟨s, c₁, hs, h⟩ := run_bind_eq_ok.1 h
      have hs := (allReach fuel).stmt _ _ _ hc hs
      obtain ⟨rest, c₂, hr, h⟩ := run_bind_eq_ok.1 h
      cases h
      exact .programNext hk hs (ih _ _ (hs.closed hc) hr)

/-! ## From the relation to runs -/

def Goal.least : Goal → Nat
  | .extend .. | .body | .program => 0
  | .block => 2
  | _ => 1

@[grind →]
theorem Reads.length {g : Goal} {c d : Cursor} {p : Piece} (h : Reads g c p d) :
    d.pending.length + g.least ≤ c.pending.length := by
  induction h <;> simp only [Goal.least, Cursor.tick_pending] at * <;> grind

/-- A budget that suffices for reaching a goal with `n` tokens. -/
def Goal.need : Goal → (n : Nat) → Nat
  | .operand, n => 8 * n - 12
  | .expr _, n => 8 * n - 4
  | .extend .., n | .body, n | .program, n => 8 * n + 1
  | .block, n => 8 * n - 14
  | .conditional, n => 8 * n - 1
  | .statement, n => 8 * n

attribute [grind =] Goal.least Goal.need

/-- The parser for a goal, run with the budget `fuel`. -/
def Runs (fuel : Nat) : Goal → Cursor → Piece → Cursor → Prop
  | .operand, c, .expr e, d => (operand (expr fuel) (block fuel)).run c = .ok e d
  | .expr power, c, .expr e, d => (expr fuel power).run c = .ok e d
  | .extend power left, c, .expr e, d => (extend fuel power left).run c = .ok e d
  | .block, c, .block b, d => (block fuel).run c = .ok b d
  | .body, c, .stmts l, d => (blockStatements fuel).run c = .ok l d
  | .conditional, c, .stmt s, d => (conditional fuel).run c = .ok s d
  | .statement, c, .stmt s, d => (stmt fuel).run c = .ok s d
  | .program, c, .stmts l, d => (statements fuel).run c = .ok l d
  | _, _, _, _ => False

section Running

variable {expr : Power → Parser Expr} {block : Parser Block} {conditional : Parser Stmt}
  {c c₁ c₂ c₃ c₄ c₅ d : Cursor} {t t' name eq : Token} {e : Expr} {b : Block} {s : Stmt}

theorem leaf_run {make : Node → Expr} (h : c.Next t d) :
    (leaf make).run c = .ok (make ⟨d.nextId, t.span⟩) d.tick := by
  rw [leaf, run_bind_of_ok (advance_of_next h), run_bind_of_ok (freshNode_run _ _)]
  rfl

theorem operand_literal_run {value : Value} (h : c.Next t d) (hv : t.literal? = some value) :
    (operand expr block).run c = .ok (.literal ⟨d.nextId, t.span⟩ value) d.tick := by
  rw [operand, run_get_bind, h.kind]
  rw [Token.literal?] at hv
  split at hv
  case h_1 hi =>
    simp only [hi, primary, run_get_bind, h.current, hv, number]
    exact leaf_run h
  case h_2 hi =>
    simp only [hi, primary, run_get_bind, h.current, hv, number]
    exact leaf_run h
  case h_3 hi =>
    simp only [hi, primary, run_get_bind, h.current]
    cases hv
    exact leaf_run h
  case h_4 hi =>
    simp only [hi, primary, run_get_bind, h.current]
    cases hv
    exact leaf_run h
  case h_5 => simp at hv

theorem operand_name_run (h : c.Next t d) (hk : t.kind = .identifier) :
    (operand expr block).run c = .ok (.load ⟨d.nextId, t.span⟩ t.text) d.tick := by
  simp only [operand, run_get_bind, h.kind, hk, primary, h.current]
  exact leaf_run h

theorem operand_signed_run {op : UnaryOp} (h : c.Next t c₁) (hop : UnaryOp.ofKind? t.kind = some op)
    (he : (expr .unary).run c₁ = .ok e d) :
    (operand expr block).run c =
      .ok (.unary ⟨d.nextId, ⟨t.span.start, e.node.span.stop⟩⟩ op e) d.tick := by
  have hs : (operand expr block).run c = (signed expr).run c := by
    rw [operand, run_get_bind, h.kind]
    cases hk : t.kind <;> simp_all [UnaryOp.ofKind?]
  rw [hs, signed, run_bind_of_ok (advance_of_next h), hop]
  dsimp only
  rw [run_bind_of_ok he, run_bind_of_ok (freshNode_run _ _)]
  rfl

theorem operand_group_run (h : c.Next t c₁) (hk : t.kind = .openParen)
    (he : (expr .lowest).run c₁ = .ok e c₂) (h' : c₂.Next t' d) (hk' : t'.kind = .closeParen) :
    (operand expr block).run c = .ok e d := by
  rw [operand, run_get_bind, h.kind, hk]
  dsimp only
  rw [grouping, run_bind_of_ok (expect_of_next h hk), run_bind_of_ok he,
    run_bind_of_ok (expect_of_next h' hk')]
  rfl

theorem operand_compound_run (hk : c.kind = .openCurly) (hb : block.run c = .ok b d) :
    (operand expr block).run c = .ok (.compound ⟨d.nextId, b.span⟩ b) d.tick := by
  rw [operand, run_get_bind, hk]
  dsimp only
  rw [compound, run_bind_of_ok hb, run_bind_of_ok (freshNode_run _ _)]
  rfl

theorem binary_run {left : Expr} {power : Power} {op : BinaryOp} (h : c.Next t c₁)
    (hop : BinaryOp.ofKind? t.kind = some op) (he : (expr power).run c₁ = .ok e d) :
    (binary expr left power).run c =
      .ok (.binary ⟨d.nextId, ⟨left.node.span.start, e.node.span.stop⟩⟩ op left e) d.tick := by
  rw [binary, run_bind_of_ok (advance_of_next h), hop]
  dsimp only
  rw [run_bind_of_ok he, run_bind_of_ok (freshNode_run _ _)]
  rfl

theorem braced_run {body : Parser (List Stmt)} {inside : List Stmt} (h : c.Next t c₁)
    (hk : t.kind = .openCurly) (hb : body.run c₁ = .ok inside c₂) (h' : c₂.Next t' d)
    (hk' : t'.kind = .closeCurly) :
    (braced body).run c = .ok ⟨⟨t.span.start, d.previousEnd⟩, inside⟩ d := by
  rw [braced, run_bind_of_ok (expect_of_next h hk), run_bind_of_ok hb,
    run_bind_of_ok (expect_of_next h' hk')]
  rfl

/-! ### Statements -/

theorem initializer?_missing_run {p : Parser Expr} (hk : c.kind ≠ .assignment) :
    (initializer? p).run c = .ok none c := by
  rw [initializer?, run_get_bind, if_neg hk]
  rfl

theorem initializer?_run {p : Parser Expr} (h : c.Next t c₁) (hk : t.kind = .assignment)
    (he : p.run c₁ = .ok e d) : (initializer? p).run c = .ok (some e) d := by
  rw [initializer?, run_get_bind, if_pos (h.kind.trans hk), run_bind_of_ok (advance_of_next h),
    run_bind_of_ok he]
  rfl

theorem closing_run {start : Position} {make : Node → Stmt} (h : c.Next t d)
    (hk : t.kind = .semicolon) :
    (do let _ ← expect .semicolon; return make (← closeNode start) : Parser Stmt).run c =
      .ok (make (d.closing start)) d.tick := by
  rw [run_bind_of_ok (expect_of_next h hk), run_bind_of_ok (closeNode_run _ _)]
  rfl

theorem statement_varZero_run {ty : Ty} (h : c.Next t c₁) (hk : t.kind = .varWord)
    (hn : c₁.Next name c₂) (hid : name.kind = .identifier) (hty : ReadsType c₂ (some ty) c₃)
    (hs : c₃.Next t' d) (hsk : t'.kind = .semicolon) :
    (statement (expr .lowest) block conditional).run c =
      .ok (.declareVar (d.closing t.span.start) name.text (some ty) none) d.tick := by
  rw [statement, run_get_bind, h.kind, hk]
  dsimp only
  rw [varDeclaration, run_bind_of_ok (advance_of_next h),
    run_bind_of_ok (expectDetailed_of_next hn hid), run_bind_of_ok (typeName?_of_reads hty),
    run_bind_of_ok (initializer?_missing_run (by rw [hs.kind, hsk]; decide))]
  exact closing_run hs hsk

theorem statement_varInit_run {declared : Option Ty} (h : c.Next t c₁) (hk : t.kind = .varWord)
    (hn : c₁.Next name c₂) (hid : name.kind = .identifier) (hty : ReadsType c₂ declared c₃)
    (heq : c₃.Next eq c₄) (hek : eq.kind = .assignment) (he : (expr .lowest).run c₄ = .ok e c₅)
    (hs : c₅.Next t' d) (hsk : t'.kind = .semicolon) :
    (statement (expr .lowest) block conditional).run c =
      .ok (.declareVar (d.closing t.span.start) name.text declared (some e)) d.tick := by
  rw [statement, run_get_bind, h.kind, hk]
  dsimp only
  rw [varDeclaration, run_bind_of_ok (advance_of_next h),
    run_bind_of_ok (expectDetailed_of_next hn hid), run_bind_of_ok (typeName?_of_reads hty),
    run_bind_of_ok (initializer?_run heq hek he)]
  simp only [Option.isNone_some, Bool.and_false, Bool.false_eq_true, if_false]
  exact closing_run hs hsk

theorem statement_const_run {declared : Option Ty} (h : c.Next t c₁) (hk : t.kind = .constWord)
    (hn : c₁.Next name c₂) (hid : name.kind = .identifier) (hty : ReadsType c₂ declared c₃)
    (heq : c₃.Next eq c₄) (hek : eq.kind = .assignment) (he : (expr .lowest).run c₄ = .ok e c₅)
    (hs : c₅.Next t' d) (hsk : t'.kind = .semicolon) :
    (statement (expr .lowest) block conditional).run c =
      .ok (.declareConst (d.closing t.span.start) name.text declared e) d.tick := by
  rw [statement, run_get_bind, h.kind, hk]
  dsimp only
  rw [constDeclaration, run_bind_of_ok (advance_of_next h),
    run_bind_of_ok (expectDetailed_of_next hn hid), run_bind_of_ok (typeName?_of_reads hty),
    run_bind_of_ok (initializer?_run heq hek he)]
  exact closing_run hs hsk

theorem statement_assign_run (hn : c.Next name c₁) (hid : name.kind = .identifier)
    (heq : c₁.Next eq c₂) (hek : eq.kind = .assignment) (he : (expr .lowest).run c₂ = .ok e c₃)
    (hs : c₃.Next t' d) (hsk : t'.kind = .semicolon) :
    (statement (expr .lowest) block conditional).run c =
      .ok (.assign (d.closing name.span.start) name.text e) d.tick := by
  have hnext : c.nextKind = .assignment := by
    rw [Cursor.nextKind, hn.1, List.tail_cons, heq.1]
    exact hek
  rw [statement, run_get_bind, hn.kind, hid]
  dsimp only
  rw [if_pos hnext, assignment, run_bind_of_ok (expect_of_next hn hid),
    run_bind_of_ok (expect_of_next heq hek), run_bind_of_ok he]
  exact closing_run hs hsk

theorem statement_print_run (h : c.Next t c₁) (hk : t.kind = .printWord)
    (he : (expr .lowest).run c₁ = .ok e c₂) (hs : c₂.Next t' d) (hsk : t'.kind = .semicolon) :
    (statement (expr .lowest) block conditional).run c =
      .ok (.print (d.closing t.span.start) e) d.tick := by
  rw [statement, run_get_bind, h.kind, hk]
  dsimp only
  rw [printing, run_bind_of_ok (advance_of_next h), run_bind_of_ok he]
  exact closing_run hs hsk

theorem statement_while_run (h : c.Next t c₁) (hk : t.kind = .whileWord)
    (he : (expr .lowest).run c₁ = .ok e c₂) (hb : block.run c₂ = .ok b d) :
    (statement (expr .lowest) block conditional).run c =
      .ok (.whileLoop (d.closing t.span.start) e b) d.tick := by
  rw [statement, run_get_bind, h.kind, hk]
  dsimp only
  rw [whileLoop, run_bind_of_ok (advance_of_next h), run_bind_of_ok he, run_bind_of_ok hb,
    run_bind_of_ok (closeNode_run _ _)]
  rfl

theorem statement_break_run (h : c.Next t c₁) (hk : t.kind = .breakWord) (hs : c₁.Next t' d)
    (hsk : t'.kind = .semicolon) :
    (statement (expr .lowest) block conditional).run c =
      .ok (.breakLoop (d.closing t.span.start)) d.tick := by
  rw [statement, run_get_bind, h.kind, hk]
  dsimp only
  rw [loopControl, run_bind_of_ok (advance_of_next h), run_bind_of_ok (expect_of_next hs hsk),
    run_bind_of_ok (closeNode_run _ _), if_pos hk]
  rfl

theorem statement_continue_run (h : c.Next t c₁) (hk : t.kind = .continueWord) (hs : c₁.Next t' d)
    (hsk : t'.kind = .semicolon) :
    (statement (expr .lowest) block conditional).run c =
      .ok (.continueLoop (d.closing t.span.start)) d.tick := by
  rw [statement, run_get_bind, h.kind, hk]
  dsimp only
  rw [loopControl, run_bind_of_ok (advance_of_next h), run_bind_of_ok (expect_of_next hs hsk),
    run_bind_of_ok (closeNode_run _ _), if_neg (by rw [hk]; decide)]
  rfl

theorem statement_expr_run (hk : c.kind.startsStatement = false)
    (ha : ¬ (c.kind = .identifier ∧ c.nextKind = .assignment))
    (he : (expr .lowest).run c = .ok e c₁) (hs : c₁.Next t' d) (hsk : t'.kind = .semicolon) :
    (statement (expr .lowest) block conditional).run c =
      .ok (.expr (d.closing c.position) e) d.tick := by
  have h : (statement (expr .lowest) block conditional).run c =
      (exprStatement (expr .lowest)).run c := by
    rw [statement, run_get_bind]
    cases h : c.kind <;> simp_all [Kind.startsStatement]
  rw [h, exprStatement, run_get_bind, run_bind_of_ok he]
  exact closing_run hs hsk

theorem ifElse_only_run (h : c.Next t c₁) (he : (expr .lowest).run c₁ = .ok e c₂)
    (hb : block.run c₂ = .ok b c₃) (hk : c₃.kind ≠ .elseWord) :
    (ifElse (expr .lowest) block conditional).run c =
      .ok (.ifElse (c₃.closing t.span.start) e b none) c₃.tick := by
  rw [ifElse, run_bind_of_ok (advance_of_next h), run_bind_of_ok he, run_bind_of_ok hb,
    run_get_bind, if_neg hk]
  rfl

theorem ifElse_else_run {b' : Block} (h : c.Next t c₁) (he : (expr .lowest).run c₁ = .ok e c₂)
    (hb : block.run c₂ = .ok b c₃) (h' : c₃.Next t' c₄) (hk : t'.kind = .elseWord)
    (hi : c₄.kind ≠ .ifWord) (hb' : block.run c₄ = .ok b' d) :
    (ifElse (expr .lowest) block conditional).run c =
      .ok (.ifElse (d.closing t.span.start) e b (some b')) d.tick := by
  rw [ifElse, run_bind_of_ok (advance_of_next h), run_bind_of_ok he, run_bind_of_ok hb,
    run_get_bind, if_pos (h'.kind.trans hk), run_bind_of_ok (advance_of_next h')]
  simp only [otherwise, bind_assoc, run_get_bind, if_neg hi]
  rw [run_bind_of_ok hb']
  rfl

theorem ifElse_chain_run (h : c.Next t c₁) (he : (expr .lowest).run c₁ = .ok e c₂)
    (hb : block.run c₂ = .ok b c₃) (h' : c₃.Next t' c₄) (hk : t'.kind = .elseWord)
    (hi : c₄.kind = .ifWord) (hs : conditional.run c₄ = .ok s d) :
    (ifElse (expr .lowest) block conditional).run c =
      .ok (.ifElse (d.closing t.span.start) e b (some ⟨s.node.span, [s]⟩)) d.tick := by
  rw [ifElse, run_bind_of_ok (advance_of_next h), run_bind_of_ok he, run_bind_of_ok hb,
    run_get_bind, if_pos (h'.kind.trans hk), run_bind_of_ok (advance_of_next h')]
  simp only [otherwise, bind_assoc, run_get_bind, if_pos hi]
  rw [run_bind_of_ok hs]
  rfl

end Running

theorem exists_succ_of_need {g : Goal} {n fuel : Nat} (hf : g.need n ≤ fuel) (hn : g.least ≤ n)
    (hg : g ≠ .operand) : ∃ k, fuel = k + 1 := by
  refine ⟨fuel - 1, ?_⟩
  cases g <;> simp only [Goal.need, Goal.least, ne_eq, not_true_eq_false] at hf hn hg <;> omega

/-- What can be read is read by every run with a budget that suffices for its tokens. -/
theorem Reads.runs {g : Goal} {c d : Cursor} {p : Piece} (h : Reads g c p d) :
    ∀ fuel, g.need (c.pending.length - d.pending.length) ≤ fuel → Runs fuel g c p d := by
  induction h with
  | literal h hv => intro fuel _; exact operand_literal_run h hv
  | name h hk => intro fuel _; exact operand_name_run h hk
  | signed h hop he ih =>
    intro fuel hf
    exact operand_signed_run h hop (ih fuel (by grind))
  | group h hk he h' hk' ih =>
    intro fuel hf
    exact operand_group_run h hk (ih fuel (by grind)) h' hk'
  | compound hk hb ih =>
    intro fuel hf
    exact operand_compound_run hk (ih fuel (by grind))
  | @expr c power left d e c' ho hx iho ihx =>
    intro fuel hf
    obtain ⟨k, rfl⟩ := exists_succ_of_need hf (by grind) nofun
    have h₁ : (operand (Parser.expr k) (Parser.block k)).run c = .ok left d := iho k (by grind)
    have h₂ : (Parser.extend k power left).run d = .ok e c' := ihx k (by grind)
    show (Parser.expr (k + 1) power).run c = .ok e c'
    rw [Parser.expr, run_bind_of_ok h₁, h₂]
  | @stop c power left hp =>
    intro fuel hf
    obtain ⟨k, rfl⟩ := exists_succ_of_need hf (Nat.zero_le _) nofun
    show (Parser.extend (k + 1) power left).run c = .ok left c
    rw [Parser.extend, run_get_bind]
    dsimp only
    rw [if_neg hp]
    rfl
  | @join c power left t d op right d' e c' hp h hop hr hx ihr ihx =>
    intro fuel hf
    obtain ⟨k, rfl⟩ := exists_succ_of_need hf (Nat.zero_le _) nofun
    have h₁ : (Parser.expr k t.kind.power).run d = .ok right d' := ihr k (by grind)
    have h₂ : (Parser.extend k power _).run d'.tick = .ok e c' := ihx k (by grind)
    show (Parser.extend (k + 1) power left).run c = .ok e c'
    rw [Parser.extend, run_get_bind]
    dsimp only
    rw [h.kind, if_pos hp, run_bind_of_ok (binary_run h hop h₁), h₂]
  | block h hk hb h' hk' ih =>
    intro fuel hf
    obtain ⟨k, rfl⟩ := exists_succ_of_need hf (by grind) nofun
    exact braced_run h hk (ih k (by grind)) h' hk'
  | @bodyEnd c hk =>
    intro fuel hf
    obtain ⟨k, rfl⟩ := exists_succ_of_need hf (Nat.zero_le _) nofun
    show (blockStatements (k + 1)).run c = .ok [] c
    rw [blockStatements, run_get_bind, hk]
    rfl
  | @bodyNext c s d rest c' hk hk' hs hr ihs ihr =>
    intro fuel hf
    obtain ⟨k, rfl⟩ := exists_succ_of_need hf (Nat.zero_le _) nofun
    have h₁ : (stmt k).run c = .ok s d := ihs k (by grind)
    have h₂ : (blockStatements k).run d = .ok rest c' := ihr k (by grind)
    show (blockStatements (k + 1)).run c = .ok (s :: rest) c'
    rw [blockStatements, run_get_bind]
    split
    · exact absurd ‹_› hk
    · exact absurd ‹_› hk'
    · rw [run_bind_of_ok h₁, run_bind_of_ok h₂]
      rfl
  | ifOnly h hk he hb hk' ihe ihb =>
    intro fuel hf
    obtain ⟨k, rfl⟩ := exists_succ_of_need hf (by grind) nofun
    exact ifElse_only_run h (ihe k (by grind))
      (ihb k (by grind)) hk'
  | ifElse h hk he hb h' hk' hi hb' ihe ihb ihb' =>
    intro fuel hf
    obtain ⟨k, rfl⟩ := exists_succ_of_need hf (by grind) nofun
    exact ifElse_else_run h (ihe k (by grind))
      (ihb k (by grind)) h' hk' hi (ihb' k (by grind))
  | ifChain h hk he hb h' hk' hi hs ihe ihb ihs =>
    intro fuel hf
    obtain ⟨k, rfl⟩ := exists_succ_of_need hf (by grind) nofun
    exact ifElse_chain_run h (ihe k (by grind))
      (ihb k (by grind)) h' hk' hi (ihs k (by grind))
  | varZero h hk hn hid hty hs hsk =>
    intro fuel hf
    obtain ⟨k, rfl⟩ := exists_succ_of_need hf (by grind) nofun
    exact statement_varZero_run h hk hn hid hty hs hsk
  | varInit h hk hn hid hty heq hek he hs hsk ih =>
    intro fuel hf
    obtain ⟨k, rfl⟩ := exists_succ_of_need hf (by grind) nofun
    exact statement_varInit_run h hk hn hid hty heq hek (ih k (by grind)) hs hsk
  | const h hk hn hid hty heq hek he hs hsk ih =>
    intro fuel hf
    obtain ⟨k, rfl⟩ := exists_succ_of_need hf (by grind) nofun
    exact statement_const_run h hk hn hid hty heq hek (ih k (by grind)) hs hsk
  | assign hn hid heq hek he hs hsk ih =>
    intro fuel hf
    obtain ⟨k, rfl⟩ := exists_succ_of_need hf (by grind) nofun
    exact statement_assign_run hn hid heq hek (ih k (by grind)) hs hsk
  | print h hk he hs hsk ih =>
    intro fuel hf
    obtain ⟨k, rfl⟩ := exists_succ_of_need hf (by grind) nofun
    exact statement_print_run h hk (ih k (by grind)) hs hsk
  | @conditional c s c' hk hs ih =>
    intro fuel hf
    obtain ⟨k, rfl⟩ := exists_succ_of_need hf (by grind) nofun
    have h₁ : (Parser.conditional k).run c = .ok s c' := ih k (by grind)
    show (statement (Parser.expr k .lowest) (Parser.block k) (Parser.conditional k)).run c =
      .ok s c'
    rw [statement, run_get_bind, hk]
    exact h₁
  | whileLoop h hk he hb ihe ihb =>
    intro fuel hf
    obtain ⟨k, rfl⟩ := exists_succ_of_need hf (by grind) nofun
    exact statement_while_run h hk (ihe k (by grind))
      (ihb k (by grind))
  | breakLoop h hk hs hsk =>
    intro fuel hf
    obtain ⟨k, rfl⟩ := exists_succ_of_need hf (by grind) nofun
    exact statement_break_run h hk hs hsk
  | continueLoop h hk hs hsk =>
    intro fuel hf
    obtain ⟨k, rfl⟩ := exists_succ_of_need hf (by grind) nofun
    exact statement_continue_run h hk hs hsk
  | exprStatement hk ha he hs hsk ih =>
    intro fuel hf
    obtain ⟨k, rfl⟩ := exists_succ_of_need hf (by grind) nofun
    exact statement_expr_run hk ha (ih k (by grind)) hs hsk
  | @programEnd c hk =>
    intro fuel hf
    obtain ⟨k, rfl⟩ := exists_succ_of_need hf (Nat.zero_le _) nofun
    show (statements (k + 1)).run c = .ok [] c
    rw [statements, run_get_bind, if_pos (show c.atEnd = true from decide_eq_true hk)]
    rfl
  | @programNext c s d rest c' hk hs hr ihs ihr =>
    intro fuel hf
    obtain ⟨k, rfl⟩ := exists_succ_of_need hf (Nat.zero_le _) nofun
    have h₁ : (stmt k).run c = .ok s d := ihs k (by grind)
    have h₂ : (statements k).run d = .ok rest c' := ihr k (by grind)
    show (statements (k + 1)).run c = .ok (s :: rest) c'
    have hend : ¬ c.atEnd = true := fun h => hk (of_decide_eq_true h)
    rw [statements, run_get_bind, if_neg hend, run_bind_of_ok h₁, run_bind_of_ok h₂]
    rfl

end Parser

/-! ## Whole programs -/

namespace Cursor

theorem ofTokens_closed (tokens : List Token) (file : String) : (ofTokens tokens file).Closed := by
  unfold ofTokens
  dsimp only
  split
  · rfl
  · split
    · assumption
    · rfl

theorem ofTokens_file (tokens : List Token) (file : String) : (ofTokens tokens file).file = file := by
  unfold ofTokens
  dsimp only
  split
  · rfl
  · split <;> rfl

theorem ofTokens_start (tokens : List Token) (file : String) :
    (ofTokens tokens file).previousEnd = ⟨0, file⟩ ∧ (ofTokens tokens file).nextId = 0 := by
  unfold ofTokens
  dsimp only
  split
  · exact ⟨rfl, rfl⟩
  · split <;> exact ⟨rfl, rfl⟩

end Cursor

theorem Program.ofTokens_eq_ok {tokens : List Token} {file : String} {p : Program} :
    Program.ofTokens tokens file = .ok p ↔
      ∃ d, Parser.Reads .program (.ofTokens tokens file) (.stmts p.statements) d ∧
        p.span = ⟨⟨0, file⟩, d.position⟩ := by
  have hc := Cursor.ofTokens_closed tokens file
  have hf := Cursor.ofTokens_file tokens file
  unfold Program.ofTokens
  generalize Cursor.ofTokens tokens file = c at hc hf
  constructor
  · intro h
    split at h
    · rename_i q d hq
      cases h
      rw [Parser.program, run_get_bind] at hq
      obtain ⟨l, d', hl, hq⟩ := run_bind_eq_ok.1 hq
      cases hq
      exact ⟨_, Parser.statements_reaches _ _ _ _ hc hl, by rw [hf]⟩
    · cases h
  · rintro ⟨d, hr, hs⟩
    have hneed : Parser.Goal.program.need (c.pending.length - d.pending.length) ≤ c.budget := by
      rw [Parser.Goal.need, Cursor.budget]
      omega
    have hrun : (Parser.statements c.budget).run c = .ok p.statements d := hr.runs _ hneed
    have hp : Parser.program.run c = .ok p d := by
      rw [Parser.program, run_get_bind, run_bind_of_ok hrun, run_get_bind, hf, ← hs]
      rfl
    rw [hp]

end Leveret
