import Leveret.Proofs.Parsing.Reading

/-!
# Outcomes of a parser

A run of a parser succeeds or fails, and either way it leaves the cursor at some place. What a run
comes to is told from what its steps come to. However it ends, it never goes back.
-/

namespace Leveret

/-! ## Places -/

/-- `d` stands in the same list of tokens as `c`, there or further on. -/
structure Cursor.Onward (c d : Cursor) : Prop where
  pending : d.pending <:+ c.pending
  final : d.final = c.final

namespace Cursor.Onward

variable {c d e : Cursor}

theorem refl : c.Onward c := ⟨List.suffix_rfl, rfl⟩

theorem tick : c.Onward c.tick := ⟨List.suffix_rfl, rfl⟩

theorem trans (h : c.Onward d) (h' : d.Onward e) : c.Onward e :=
  ⟨h'.pending.trans h.pending, h'.final.trans h.final⟩

theorem advance : c.Onward c.advance := by
  unfold Cursor.advance
  split
  · exact .refl
  · rename_i t rest hp
    refine ⟨?_, rfl⟩
    rw [hp]
    exact List.suffix_cons t rest

theorem length (h : c.Onward d) : d.pending.length ≤ c.pending.length := h.pending.length_le

end Cursor.Onward

namespace Parser

/-! ## Runs and their steps -/

/-- A run of the parser from `c` succeeds as `ok` says or fails as `bad` says. -/
def Outcome {α : Type} (p : Parser α) (c : Cursor) (ok : α → Cursor → Prop)
    (bad : Diagnostic → Cursor → Prop) : Prop :=
  match p.run c with
  | .ok a d => ok a d
  | .error e d => bad e d

section Outcome

variable {α β : Type} {p : Parser α} {c : Cursor} {ok : α → Cursor → Prop}
  {bad : Diagnostic → Cursor → Prop}

theorem Outcome.of_ok {a : α} {d : Cursor} (hp : p.run c = .ok a d) (h : ok a d) :
    Outcome p c ok bad := by
  unfold Outcome
  rw [hp]
  exact h

theorem Outcome.bad_of (h : Outcome p c ok bad) {e : Diagnostic} {d : Cursor}
    (hp : p.run c = .error e d) : bad e d := by
  unfold Outcome at h
  rw [hp] at h
  exact h

theorem Outcome.pure {a : α} (h : ok a c) : Outcome (pure a) c ok bad := h

theorem Outcome.throw {e : Diagnostic} (h : bad e c) : Outcome (throw e) c ok bad := h

theorem Outcome.look {f : Cursor → Parser α} (h : Outcome (f c) c ok bad) :
    Outcome (get >>= f) c ok bad := h

theorem Outcome.bind {f : α → Parser β} {ok : β → Cursor → Prop}
    (h : Outcome p c (fun a d => Outcome (f a) d ok bad) bad) : Outcome (p >>= f) c ok bad := by
  unfold Outcome at h ⊢
  rw [EStateM.run_bind]
  cases hp : p.run c <;> rw [hp] at h <;> exact h

theorem Outcome.mono {ok' : α → Cursor → Prop} {bad' : Diagnostic → Cursor → Prop}
    (h : Outcome p c ok bad) (hok : ∀ a d, ok a d → ok' a d) (hbad : ∀ e d, bad e d → bad' e d) :
    Outcome p c ok' bad' := by
  unfold Outcome at h ⊢
  cases hp : p.run c with
  | ok a d =>
    rw [hp] at h
    exact hok a d h
  | error e d =>
    rw [hp] at h
    exact hbad e d h

end Outcome

/-! ## No way back -/

def Forward {α : Type} (p : Parser α) : Prop :=
  ∀ c, Outcome p c (fun _ d => c.Onward d) fun _ d => c.Onward d

section Forward

variable {α β : Type}

theorem Forward.pure (a : α) : Forward (pure a : Parser α) := fun _ => .pure .refl

theorem Forward.throw (e : Diagnostic) : Forward (throw e : Parser α) := fun _ => .throw .refl

theorem Forward.look {f : Cursor → Parser α} (h : ∀ c, Forward (f c)) : Forward (get >>= f) :=
  fun c => .look (h c c)

theorem Forward.bind {p : Parser α} {f : α → Parser β} (h : Forward p)
    (hf : ∀ a, Forward (f a)) : Forward (p >>= f) := by
  refine fun c => .bind ((h c).mono (fun a d hd => ?_) fun _ _ hd => hd)
  exact (hf a d).mono (fun _ _ he => hd.trans he) fun _ _ he => hd.trans he

theorem forward_advance : Forward advance := fun c => .of_ok (advance_run c) .advance

theorem forward_freshNode (span : Span) : Forward (freshNode span) :=
  fun c => .of_ok (freshNode_run span c) .tick

theorem forward_closeNode (start : Position) : Forward (closeNode start) :=
  fun c => .of_ok (closeNode_run start c) .tick

theorem forward_unexpected : Forward (unexpected : Parser α) := .look fun _ => .throw _

theorem forward_failHere (message : String) : Forward (failHere message : Parser α) :=
  .look fun _ => .throw _

theorem forward_expect (kind : Kind) : Forward (expect kind) := by
  refine .look fun c => ?_
  split
  · exact forward_advance
  · exact forward_unexpected

theorem forward_expectDetailed (kind : Kind) (message : String) :
    Forward (expectDetailed kind message) := by
  refine .look fun c => ?_
  split
  · exact forward_advance
  · exact forward_failHere _

theorem forward_closing (start : Position) (make : Node → Stmt) :
    Forward (do let _ ← expect .semicolon; return make (← closeNode start)) :=
  .bind (forward_expect _) fun _ => .bind (forward_closeNode _) fun _ => .pure _

/-! ### Expressions -/

theorem forward_leaf (make : Node → Expr) : Forward (leaf make) :=
  .bind forward_advance fun _ => .bind (forward_freshNode _) fun _ => .pure _

theorem forward_number (token : Token) (value : Option Value) : Forward (number token value) := by
  cases value with
  | none => exact .throw _
  | some v => exact forward_leaf _

theorem forward_primary : Forward primary := by
  refine .look fun c => ?_
  dsimp only
  split
  case h_1 | h_2 => exact forward_number _ _
  case h_3 | h_4 | h_5 => exact forward_leaf _
  case h_6 => exact forward_unexpected

variable {expr : Power → Parser Expr} {block : Parser Block} {conditional : Parser Stmt}

theorem forward_signed (hexpr : ∀ power, Forward (expr power)) : Forward (signed expr) := by
  refine .bind forward_advance fun t => ?_
  split
  · exact .throw _
  · exact .bind (hexpr _) fun e => .bind (forward_freshNode _) fun _ => .pure _

theorem forward_grouping (hexpr : ∀ power, Forward (expr power)) : Forward (grouping expr) :=
  .bind (forward_expect _) fun _ => .bind (hexpr _) fun _ => .bind (forward_expect _) fun _ =>
    .pure _

theorem forward_compound (hblock : Forward block) : Forward (compound block) :=
  .bind hblock fun _ => .bind (forward_freshNode _) fun _ => .pure _

theorem forward_operand (hexpr : ∀ power, Forward (expr power)) (hblock : Forward block) :
    Forward (operand expr block) := by
  refine .look fun c => ?_
  split
  case h_1 | h_2 | h_3 | h_4 | h_5 => exact forward_primary
  case h_6 | h_7 => exact forward_signed hexpr
  case h_8 => exact forward_grouping hexpr
  case h_9 => exact forward_compound hblock
  case h_10 =>
    split
    · exact forward_failHere _
    · exact forward_unexpected

theorem forward_binary (hexpr : ∀ power, Forward (expr power)) (left : Expr) (power : Power) :
    Forward (binary expr left power) := by
  refine .bind forward_advance fun t => ?_
  split
  · exact .throw _
  · exact .bind (hexpr _) fun e => .bind (forward_freshNode _) fun _ => .pure _

/-! ### Statements -/

theorem forward_typeName? : Forward typeName? := by
  refine .look fun c => ?_
  split
  · refine .bind forward_advance fun t => ?_
    split
    · exact .pure _
    · exact .throw _
  · exact .pure _

theorem forward_initializer? (hexpr : ∀ power, Forward (expr power)) :
    Forward (initializer? (expr .lowest)) := by
  refine .look fun c => ?_
  split
  · exact .bind forward_advance fun _ => .bind (hexpr _) fun _ => .pure _
  · exact .pure _

theorem forward_varDeclaration (hexpr : ∀ power, Forward (expr power)) :
    Forward (varDeclaration (expr .lowest)) := by
  refine .bind forward_advance fun _ => .bind (forward_expectDetailed _ _) fun _ => ?_
  refine .bind forward_typeName? fun _ => .bind (forward_initializer? hexpr) fun _ => ?_
  dsimp only
  split
  · exact .bind (forward_failHere _) fun _ => forward_closing _ _
  · exact forward_closing _ _

theorem forward_constDeclaration (hexpr : ∀ power, Forward (expr power)) :
    Forward (constDeclaration (expr .lowest)) := by
  refine .bind forward_advance fun _ => .bind (forward_expectDetailed _ _) fun _ => ?_
  refine .bind forward_typeName? fun _ => .bind (forward_initializer? hexpr) fun init => ?_
  cases init with
  | none => exact forward_failHere _
  | some e => exact forward_closing _ _

theorem forward_assignment (hexpr : ∀ power, Forward (expr power)) :
    Forward (assignment (expr .lowest)) :=
  .bind (forward_expect _) fun _ => .bind (forward_expect _) fun _ => .bind (hexpr _) fun _ =>
    forward_closing _ _

theorem forward_printing (hexpr : ∀ power, Forward (expr power)) :
    Forward (printing (expr .lowest)) :=
  .bind forward_advance fun _ => .bind (hexpr _) fun _ => forward_closing _ _

theorem forward_otherwise (hblock : Forward block) (hcond : Forward conditional) :
    Forward (otherwise block conditional) := by
  refine .look fun c => ?_
  split
  · exact .bind hcond fun _ => .pure _
  · exact hblock

theorem forward_ifElse (hexpr : ∀ power, Forward (expr power)) (hblock : Forward block)
    (hcond : Forward conditional) : Forward (ifElse (expr .lowest) block conditional) := by
  refine .bind forward_advance fun _ => .bind (hexpr _) fun _ => .bind hblock fun _ => ?_
  refine .look fun c => ?_
  split
  · refine .bind forward_advance fun _ => .bind (forward_otherwise hblock hcond) fun _ => ?_
    exact .bind (.pure _) fun _ => .bind (forward_closeNode _) fun _ => .pure _
  · exact .bind (.pure _) fun _ => .bind (forward_closeNode _) fun _ => .pure _

theorem forward_whileLoop (hexpr : ∀ power, Forward (expr power)) (hblock : Forward block) :
    Forward (whileLoop (expr .lowest) block) :=
  .bind forward_advance fun _ => .bind (hexpr _) fun _ => .bind hblock fun _ =>
    .bind (forward_closeNode _) fun _ => .pure _

theorem forward_loopControl : Forward loopControl :=
  .bind forward_advance fun _ => .bind (forward_expect _) fun _ =>
    .bind (forward_closeNode _) fun _ => .pure _

theorem forward_exprStatement (hexpr : ∀ power, Forward (expr power)) :
    Forward (exprStatement (expr .lowest)) :=
  .look fun _ => .bind (hexpr _) fun _ => forward_closing _ _

theorem forward_statement (hexpr : ∀ power, Forward (expr power)) (hblock : Forward block)
    (hcond : Forward conditional) : Forward (statement (expr .lowest) block conditional) := by
  refine .look fun c => ?_
  split
  case h_1 => exact forward_varDeclaration hexpr
  case h_2 => exact forward_constDeclaration hexpr
  case h_3 => exact forward_printing hexpr
  case h_4 => exact hcond
  case h_5 => exact forward_whileLoop hexpr hblock
  case h_6 | h_7 => exact forward_loopControl
  case h_8 =>
    split
    · exact forward_assignment hexpr
    · exact forward_exprStatement hexpr
  case h_9 => exact forward_exprStatement hexpr

theorem forward_braced {body : Parser (List Stmt)} (hbody : Forward body) :
    Forward (braced body) :=
  .bind (forward_expect _) fun _ => .bind hbody fun _ => .bind (forward_expect _) fun _ =>
    .look fun _ => .pure _

end Forward

structure AllForward (fuel : Nat) : Prop where
  expr (power : Power) : Forward (Parser.expr fuel power)
  extend (power : Power) (left : Expr) : Forward (Parser.extend fuel power left)
  block : Forward (Parser.block fuel)
  body : Forward (blockStatements fuel)
  conditional : Forward (Parser.conditional fuel)
  stmt : Forward (Parser.stmt fuel)

theorem allForward (fuel : Nat) : AllForward fuel := by
  induction fuel with
  | zero =>
    exact {
      expr := fun _ => forward_unexpected
      extend := fun _ _ => forward_unexpected
      block := forward_unexpected
      body := forward_unexpected
      conditional := forward_unexpected
      stmt := forward_unexpected }
  | succ fuel ih =>
    refine {
      expr := fun power => .bind (forward_operand ih.expr ih.block) fun left => ih.extend power left
      extend := fun power left => .look fun c => ?_
      block := forward_braced ih.body
      body := .look fun c => ?_
      conditional := forward_ifElse ih.expr ih.block ih.conditional
      stmt := forward_statement ih.expr ih.block ih.conditional }
    · dsimp only
      split
      · exact .bind (forward_binary ih.expr _ _) fun more => ih.extend power more
      · exact .pure _
    · split
      · exact .pure _
      · exact forward_failHere _
      · exact .bind ih.stmt fun _ => .bind ih.body fun _ => .pure _

theorem forward_statements (fuel : Nat) : Forward (statements fuel) := by
  induction fuel with
  | zero => exact forward_unexpected
  | succ fuel ih =>
    refine .look fun c => ?_
    split
    · exact .pure _
    · exact .bind (allForward fuel).stmt fun _ => .bind ih fun _ => .pure _

end Parser

end Leveret
