import Leveret.Pipeline
import Leveret.Proofs.Layout.Alike

/-!
# Running and lowering do not see the layout

Places play a part in a run and in lowering only where these fail, and a failure is the end. So the
two backends go through trees that are alike in step, from one state to one state, and if they fail
they do so with one cause.
-/

namespace Leveret

section Abreast

variable {ε δ σ α β : Type} {view : ε → δ} {m m' : EStateM ε σ α} {f f' : α → EStateM ε σ β}

/-- The two steps come to the same, apart from what `view` does not see of a failure. -/
def Abreast (view : ε → δ) (m m' : EStateM ε σ α) : Prop :=
  ∀ s, (∃ a s', m.run s = .ok a s' ∧ m'.run s = .ok a s') ∨
    ∃ e e' s', m.run s = .error e s' ∧ m'.run s = .error e' s' ∧ view e = view e'

theorem Abreast.refl (m : EStateM ε σ α) : Abreast view m m := by
  intro s
  cases h : m.run s with
  | ok a s' => exact .inl ⟨a, s', rfl, rfl⟩
  | error e s' => exact .inr ⟨e, e, s', rfl, rfl, rfl⟩

theorem Abreast.throw {e e' : ε} (h : view e = view e') :
    Abreast view (throw e : EStateM ε σ α) (throw e') :=
  fun s => .inr ⟨e, e', s, rfl, rfl, h⟩

theorem Abreast.bind (hm : Abreast view m m') (hf : ∀ a, Abreast view (f a) (f' a)) :
    Abreast view (m >>= f) (m' >>= f') := by
  intro s
  rcases hm s with ⟨a, s', h, h'⟩ | ⟨e, e', s', h, h', hview⟩
  · rw [run_bind_of_ok h, run_bind_of_ok h']
    exact hf a s'
  · exact .inr ⟨e, e', s', run_bind_of_error h, run_bind_of_error h', hview⟩

theorem Abreast.tryFinally (hm : Abreast view m m') (change : σ → σ) :
    Abreast view (tryFinally m (modify change)) (tryFinally m' (modify change)) := by
  intro s
  rw [run_tryFinally, run_tryFinally]
  rcases hm s with ⟨a, s', h, h'⟩ | ⟨e, e', s', h, h', hview⟩
  · rw [h, h']
    exact .inl ⟨a, _, rfl, rfl⟩
  · rw [h, h']
    exact .inr ⟨e, e', _, rfl, rfl, hview⟩

theorem Abreast.map (hm : Abreast view m m') (g : α → β) : Abreast view (g <$> m) (g <$> m') := by
  rw [← bind_pure_comp, ← bind_pure_comp]
  exact hm.bind fun _ => .refl _

end Abreast

def Halt.cause? : Halt → Option Cause
  | failed d => some d.cause
  | unfinished => none

/-! ## Running -/

namespace Eval

section Steps

variable {α : Type} {m m' : Eval α} (position position' : Position)

theorem fail_abreast (cause : Cause) :
    Abreast Halt.cause? (fail position cause : Eval α) (fail position' cause) := .throw rfl

theorem lift_abreast (x : Except Cause α) :
    Abreast Halt.cause? (lift position x) (lift position' x) := by
  cases x with
  | ok a => exact .refl _
  | error cause => exact fail_abreast _ _ _

theorem liftScope_abreast (x : Except ScopeError α) :
    Abreast Halt.cause? (liftScope position x) (liftScope position' x) := by
  cases x with
  | ok a => exact .refl _
  | error e => exact fail_abreast _ _ _

theorem require_abreast (v : Option Value) :
    Abreast Halt.cause? (require position v) (require position' v) := by
  cases v with
  | some v => exact .refl _
  | none => exact fail_abreast _ _ _

theorem truth_abreast (v : Value) :
    Abreast Halt.cause? (truth position v) (truth position' v) := by
  cases v with
  | bool b => exact .refl _
  | int | float => exact fail_abreast _ _ _

theorem load_abreast (name : String) :
    Abreast Halt.cause? (load position name) (load position' name) :=
  .bind (.refl _) fun _ => liftScope_abreast _ _ _

theorem declare_abreast (name : String) (v : Value) :
    Abreast Halt.cause? (declare position name v) (declare position' name v) :=
  .bind (.refl _) fun _ => .bind (liftScope_abreast _ _ _) fun _ => .refl _

theorem assign_abreast (name : String) (v : Value) :
    Abreast Halt.cause? (assign position name v) (assign position' name v) :=
  .bind (.refl _) fun _ => .bind (liftScope_abreast _ _ _) fun _ => .refl _

theorem blockValue_abreast (completion : Completion) :
    Abreast Halt.cause? (blockValue position completion) (blockValue position' completion) := by
  cases completion with
  | value v => exact .refl _
  | breaking | continuing => exact fail_abreast _ _ _

theorem inFrame_abreast (hm : Abreast Halt.cause? m m') :
    Abreast Halt.cause? (inFrame m) (inFrame m') :=
  .bind (.refl _) fun _ => hm.tryFinally _

theorem loop_abreast {condition condition' : Eval Bool} {body body' : Eval Completion}
    (hc : Abreast Halt.cause? condition condition') (hb : Abreast Halt.cause? body body')
    (limit : Nat) : Abreast Halt.cause? (loop condition body limit)
      (loop condition' body' limit) := by
  induction limit with
  | zero => exact .refl _
  | succ limit ih =>
    unfold loop
    refine .bind hc fun holds => ?_
    cases holds with
    | false => exact .refl _
    | true =>
      refine .bind hb fun completion => ?_
      cases completion with
      | breaking => exact .refl _
      | value | continuing => exact ih

end Steps

end Eval

mutual

open Eval

theorem Expr.Alike.run {e e' : Expr} : e.Alike e' → ∀ limit,
    Abreast Halt.cause? (expr limit e) (expr limit e')
  | .literal _, limit => by
    rw [expr, expr]
    exact .refl _
  | .unary _ h, limit => by
    rw [expr, expr]
    refine .bind (h.run limit) fun _ => .bind (require_abreast _ _ _) fun _ => ?_
    exact lift_abreast _ _ _
  | .binary _ h h', limit => by
    rw [expr, expr]
    refine .bind (h.run limit) fun _ => .bind (require_abreast _ _ _) fun _ => ?_
    refine .bind (h'.run limit) fun _ => .bind (require_abreast _ _ _) fun _ => ?_
    exact lift_abreast _ _ _
  | .load _, limit => by
    rw [expr, expr]
    exact .bind (load_abreast _ _ _) fun _ => .refl _
  | .compound _ h, limit => by
    rw [expr, expr]
    exact .bind (h.run limit) fun _ => blockValue_abreast _ _ _

theorem Block.Alike.run {b b' : Block} : b.Alike b' → ∀ limit,
    Abreast Halt.cause? (block limit b) (block limit b')
  | .intro h, limit => by
    rw [block, block]
    exact inFrame_abreast (h.run limit none)

theorem Stmt.Alike.run {t t' : Stmt} : t.Alike t' → ∀ limit,
    Abreast Halt.cause? (stmt limit t) (stmt limit t')
  | @Stmt.Alike.declareZero node node' name declared _, limit => by
    cases declared with
    | none =>
      rw [stmt, stmt]
      exact fail_abreast _ _ _
    | some ty =>
      rw [stmt, stmt]
      exact .bind (declare_abreast _ _ _ _) fun _ => .refl _
  | .declareVar _ h, limit | .declareConst _ h, limit => by
    rw [stmt, stmt]
    refine .bind (h.run limit) fun _ => .bind (require_abreast _ _ _) fun _ => ?_
    exact .bind (declare_abreast _ _ _ _) fun _ => .refl _
  | .assign h, limit => by
    rw [stmt, stmt]
    refine .bind (h.run limit) fun _ => .bind (require_abreast _ _ _) fun _ => ?_
    exact .bind (assign_abreast _ _ _ _) fun _ => .refl _
  | .print h, limit => by
    rw [stmt, stmt]
    exact .bind (h.run limit) fun _ => .bind (require_abreast _ _ _) fun _ => .refl _
  | .ifOnly h hb, limit => by
    rw [stmt, stmt]
    refine .bind (h.run limit) fun _ => .bind (require_abreast _ _ _) fun _ => ?_
    refine .bind (truth_abreast _ _ _) fun holds => ?_
    cases holds with
    | false => exact .refl _
    | true => exact .bind (hb.run limit) fun _ => .refl _
  | .ifElse h hb hb', limit => by
    rw [stmt, stmt]
    refine .bind (h.run limit) fun _ => .bind (require_abreast _ _ _) fun _ => ?_
    refine .bind (truth_abreast _ _ _) fun holds => ?_
    cases holds with
    | false => exact .bind (hb'.run limit) fun _ => .refl _
    | true => exact .bind (hb.run limit) fun _ => .refl _
  | .whileLoop h hb, limit => by
    rw [stmt, stmt]
    refine .bind (loop_abreast ?_ (hb.run limit) limit) fun _ => .refl _
    refine .bind (h.run limit) fun _ => .bind (require_abreast _ _ _) fun _ => ?_
    exact truth_abreast _ _ _
  | .breakLoop, limit | .continueLoop, limit => by
    rw [stmt, stmt]
    exact .refl _
  | .expr h, limit => by
    rw [stmt, stmt]
    exact .bind (h.run limit) fun _ => .refl _

theorem AlikeAll.run {list list' : List Stmt} : AlikeAll list list' → ∀ limit last,
    Abreast Halt.cause? (stmts limit last list) (stmts limit last list')
  | .nil, limit, last => by
    rw [stmts]
    exact .refl _
  | .cons h hrest, limit, last => by
    rw [stmts, stmts]
    refine .bind (h.run limit) fun completion => ?_
    cases completion with
    | value v => exact hrest.run limit v
    | breaking | continuing => exact .refl _

end

theorem AlikeAll.program {list list' : List Stmt} (h : AlikeAll list list') (limit : Nat) :
    Abreast Halt.cause? (Eval.program limit list) (Eval.program limit list') := by
  induction list generalizing list' with
  | nil =>
    cases h
    exact .refl _
  | cons t rest ih =>
    cases h with
    | cons h hrest =>
      rw [Eval.program, Eval.program]
      refine .bind (h.run limit) fun completion => ?_
      cases completion with
      | value v => exact ih hrest
      | breaking | continuing => exact Eval.fail_abreast _ _ _

theorem Program.run_of_alike {p q : Program} (h : AlikeAll p.statements q.statements)
    (limit : Nat) : (p.run limit).output = (q.run limit).output ∧
      (p.run limit).halt.map Halt.cause? = (q.run limit).halt.map Halt.cause? := by
  unfold Program.run
  rcases h.program limit .initial with ⟨_, s, hp, hq⟩ | ⟨e, e', s, hp, hq, hcause⟩
  · rw [hp, hq]
    exact ⟨rfl, rfl⟩
  · rw [hp, hq]
    exact ⟨rfl, congrArg some hcause⟩

/-! ## Lowering -/

namespace Code.Lowering

section Steps

variable {α : Type} {m m' : Lowering α} (position position' : Position)

theorem fail_abreast (message : String) :
    Abreast Diagnostic.cause (fail position message : Lowering α) (fail position' message) :=
  .throw rfl

theorem liftScope_abreast (x : Except ScopeError α) :
    Abreast Diagnostic.cause (liftScope position x) (liftScope position' x) := by
  cases x with
  | ok a => exact .refl _
  | error e => exact fail_abreast _ _ _

theorem typeOf_abreast (types : Annotations) (id : Nat) :
    Abreast Diagnostic.cause (typeOf types id position) (typeOf types id position') := by
  unfold typeOf
  split
  · exact .refl _
  · exact fail_abreast _ _ _

theorem require_abreast (operand : Option Operand) :
    Abreast Diagnostic.cause (require position operand) (require position' operand) := by
  cases operand with
  | some operand => exact .refl _
  | none => exact fail_abreast _ _ _

theorem resolve_abreast (name : String) :
    Abreast Diagnostic.cause (resolve position name) (resolve position' name) :=
  .bind (.refl _) fun _ => .bind (liftScope_abreast _ _ _) fun _ => .refl _

theorem binary_abreast (op : BinaryOp) (ty : Ty) (left right : Operand) :
    Abreast Diagnostic.cause (binary position op ty left right)
      (binary position' op ty left right) := by
  refine .bind (.refl _) fun dest => ?_
  split
  · exact fail_abreast _ _ _
  · exact .refl _

theorem load_abreast (name : String) :
    Abreast Diagnostic.cause (load position name) (load position' name) :=
  .bind (resolve_abreast _ _ _) fun _ => .refl _

theorem declare_abreast (name : String) (ty : Ty) (value : Operand) :
    Abreast Diagnostic.cause (declare position name ty value)
      (declare position' name ty value) := by
  refine .bind (.refl _) fun _ => .bind (.refl _) fun _ => .bind (.refl _) fun _ => ?_
  exact .bind (liftScope_abreast _ _ _) fun _ => .refl _

theorem assign_abreast (name : String) (value : Operand) :
    Abreast Diagnostic.cause (assign position name value) (assign position' name value) :=
  .bind (resolve_abreast _ _ _) fun _ => .refl _

theorem jump_abreast (target : LoopTargets → Nat) :
    Abreast Diagnostic.cause (jump position target) (jump position' target) := by
  refine .bind (.refl _) fun s => ?_
  split
  · exact fail_abreast _ _ _
  · exact .refl _

theorem inFrame_abreast (hm : Abreast Diagnostic.cause m m') :
    Abreast Diagnostic.cause (inFrame m) (inFrame m') :=
  .bind (.refl _) fun _ => hm.tryFinally _

theorem inLoop_abreast (targets : LoopTargets) (hm : Abreast Diagnostic.cause m m') :
    Abreast Diagnostic.cause (inLoop targets m) (inLoop targets m') :=
  .bind (.refl _) fun _ => hm.tryFinally _

theorem fill_abreast (block next : Nat) (hm : Abreast Diagnostic.cause m m') :
    Abreast Diagnostic.cause (fill block next m) (fill block next m') :=
  .bind (.refl _) fun _ => .bind hm fun _ => .refl _

theorem ifElse_abreast (condition : Operand) {b b' c c' : Lowering Unit}
    (hb : Abreast Diagnostic.cause b b') (hc : Abreast Diagnostic.cause c c') :
    Abreast Diagnostic.cause (ifElse condition b c) (ifElse condition b' c') := by
  refine .bind (.refl _) fun _ => .bind (.refl _) fun _ => .bind (.refl _) fun _ => ?_
  refine .bind (.refl _) fun _ => .bind (fill_abreast _ _ hb) fun _ => ?_
  exact .bind (fill_abreast _ _ hc) fun _ => .refl _

theorem whileLoop_abreast {condition condition' : Lowering Operand} {b b' : Lowering Unit}
    (hc : Abreast Diagnostic.cause condition condition') (hb : Abreast Diagnostic.cause b b') :
    Abreast Diagnostic.cause (whileLoop condition b) (whileLoop condition' b') := by
  refine .bind (.refl _) fun _ => .bind (.refl _) fun _ => .bind (.refl _) fun _ => ?_
  refine .bind (.refl _) fun _ => .bind (.refl _) fun _ => .bind hc fun _ => ?_
  refine .bind (.refl _) fun _ => ?_
  exact .bind (fill_abreast _ _ (inLoop_abreast _ hb)) fun _ => .refl _

end Steps

end Code.Lowering

mutual

open Code Lowering

theorem Expr.Alike.lower {e e' : Expr} : e.Alike e' → ∀ types,
    Abreast Diagnostic.cause (expr types e) (expr types e')
  | .literal _, types => by
    rw [expr, expr]
    exact .refl _
  | .unary hid h, types => by
    rw [expr, expr, hid]
    refine .bind (typeOf_abreast _ _ _ _) fun _ => ?_
    refine .bind (h.lower types) fun _ => .bind (require_abreast _ _ _) fun _ => .refl _
  | .binary _ h h', types => by
    rw [expr, expr, h.id]
    refine .bind (typeOf_abreast _ _ _ _) fun _ => ?_
    refine .bind (h.lower types) fun _ => .bind (require_abreast _ _ _) fun _ => ?_
    refine .bind (h'.lower types) fun _ => .bind (require_abreast _ _ _) fun _ => ?_
    exact .bind (binary_abreast _ _ _ _ _ _) fun _ => .refl _
  | .load _, types => by
    rw [expr, expr]
    exact .bind (load_abreast _ _ _) fun _ => .refl _
  | .compound _ h, types => by
    rw [expr, expr]
    exact h.lower types

theorem Block.Alike.lower {b b' : Block} : b.Alike b' → ∀ types,
    Abreast Diagnostic.cause (block types b) (block types b')
  | .intro h, types => by
    rw [block, block]
    exact inFrame_abreast (h.lower types none)

theorem Stmt.Alike.lower {t t' : Stmt} : t.Alike t' → ∀ types,
    Abreast Diagnostic.cause (stmt types t) (stmt types t')
  | .declareZero hid, types => by
    rw [stmt, stmt, hid]
    refine .bind (typeOf_abreast _ _ _ _) fun _ => ?_
    exact .bind (declare_abreast _ _ _ _ _) fun _ => .refl _
  | .declareVar hid h, types | .declareConst hid h, types => by
    rw [stmt, stmt, hid]
    refine .bind (typeOf_abreast _ _ _ _) fun _ => ?_
    refine .bind (h.lower types) fun _ => .bind (require_abreast _ _ _) fun _ => ?_
    exact .bind (declare_abreast _ _ _ _ _) fun _ => .refl _
  | .assign h, types => by
    rw [stmt, stmt]
    refine .bind (h.lower types) fun _ => .bind (require_abreast _ _ _) fun _ => ?_
    exact .bind (assign_abreast _ _ _ _) fun _ => .refl _
  | .print h, types => by
    rw [stmt, stmt, h.id]
    refine .bind (typeOf_abreast _ _ _ _) fun _ => ?_
    exact .bind (h.lower types) fun _ => .bind (require_abreast _ _ _) fun _ => .refl _
  | .ifOnly h hb, types => by
    rw [stmt, stmt]
    refine .bind (h.lower types) fun _ => .bind (require_abreast _ _ _) fun _ => ?_
    exact .bind (ifElse_abreast _ ((hb.lower types).map _) (.refl _)) fun _ => .refl _
  | .ifElse h hb hb', types => by
    rw [stmt, stmt]
    refine .bind (h.lower types) fun _ => .bind (require_abreast _ _ _) fun _ => ?_
    refine .bind (ifElse_abreast _ ((hb.lower types).map _) ((hb'.lower types).map _)) fun _ => ?_
    exact .refl _
  | .whileLoop h hb, types => by
    rw [stmt, stmt]
    refine .bind (whileLoop_abreast ?_ ((hb.lower types).map _)) fun _ => .refl _
    exact .bind (h.lower types) fun _ => require_abreast _ _ _
  | .breakLoop, types | .continueLoop, types => by
    rw [stmt, stmt]
    exact .bind (jump_abreast _ _ _) fun _ => .refl _
  | .expr h, types => by
    rw [stmt, stmt]
    exact h.lower types

theorem AlikeAll.lower {list list' : List Stmt} : AlikeAll list list' → ∀ types last,
    Abreast Diagnostic.cause (stmts types last list) (stmts types last list')
  | .nil, types, last => by
    rw [stmts]
    exact .refl _
  | .cons h hrest, types, last => by
    rw [stmts, stmts]
    exact .bind (h.lower types) fun _ => hrest.lower types _

end

theorem CheckedProgram.lower_of_alike {p q : CheckedProgram}
    (h : AlikeAll p.program.statements q.program.statements)
    (htypes : p.annotations = q.annotations) {name : String} {m : Code.Module}
    (hp : p.lower name = .ok m) : q.lower name = .ok m := by
  have habreast : Abreast Diagnostic.cause
      (Code.Lowering.program p.annotations p.program.statements)
      (Code.Lowering.program q.annotations q.program.statements) := by
    rw [htypes]
    exact .bind (h.lower _ none) fun _ => .refl _
  unfold CheckedProgram.lower at hp ⊢
  rcases habreast .initial with ⟨_, s, hrun, hrun'⟩ | ⟨e, e', s, hrun, -, -⟩
  · rw [hrun] at hp
    rw [hrun']
    exact hp
  · rw [hrun] at hp
    cases hp

end Leveret
