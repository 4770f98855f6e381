import Leveret.Code.Lowering
import Leveret.Proofs.Frames.Restoring

/-!
# Lowering restores the frames

Lowering puts also the loops around in order again, and it never gives another slot to a name that
has one. This holds of any tree and any annotations, as far as the tree can be lowered.
-/

namespace Leveret

variable {α : Type} {own : Option String}

namespace Code.Lowering

/-- What lowering leaves behind of a state, where `own` is the name that is declared. -/
structure Restores (own : Option String) (s s' : State) : Prop where
  frames : s.scopes.Preserved own s'.scopes
  records : s.scopes.SameRecords s'.scopes
  loops : s'.builder.loops = s.builder.loops

def view (s : State) : Chain Nat × List LoopTargets := (s.scopes, s.builder.loops)

theorem Restores.of_restoring {x : Lowering α} (hx : Restoring view own x) (s : State) :
    Restores own s (stateAfter x s) :=
  ⟨(hx s).1.preserved, (hx s).1.sameRecords, (hx s).2⟩

section Steps

variable {position : Position} {x y : Lowering α}

theorem fail_restoring (message : String) :
    Restoring view own (fail position message : Lowering α) := .throw _

theorem liftScope_restoring (r : Except ScopeError α) :
    Restoring view own (liftScope position r) := by
  cases r with
  | ok a => exact .pure a
  | error e => exact fail_restoring _

theorem look_restoring (f : State → α) : Restoring view own (look f : Lowering α) :=
  .still fun _ => rfl

theorem edit_restoring {e : Edit} (h : ∀ s, view (e.apply s) = view s) :
    Restoring view own (edit e : Lowering Unit) := .still h

theorem createBlock_restoring (name : String) :
    Restoring view own (createBlock name : Lowering Nat) :=
  (look_restoring _).bind fun _ => (edit_restoring fun _ => rfl).last

theorem freshRegister_restoring : Restoring view own (freshRegister : Lowering Nat) :=
  (look_restoring _).bind fun _ => (edit_restoring fun _ => rfl).last

theorem allocateSlot_restoring (name : String) (ty : Ty) :
    Restoring view own (allocateSlot name ty : Lowering Nat) :=
  (look_restoring _).bind fun _ => (edit_restoring fun _ => rfl).last

theorem typeOf_restoring (types : Annotations) (id : Nat) :
    Restoring view own (typeOf types id position) := by
  unfold typeOf
  split
  · exact .pure _
  · exact fail_restoring _

theorem require_restoring (r : Option Operand) : Restoring view own (require position r) := by
  cases r with
  | some operand => exact .pure operand
  | none => exact fail_restoring _

theorem resolve_restoring (name : String) : Restoring view own (resolve position name) := by
  refine (look_restoring _).bind fun found => (liftScope_restoring found).bind fun slot => ?_
  exact (look_restoring _).bind fun ty => .pure (slot, ty)

theorem unary_restoring (op : UnaryOp) (ty : Ty) (operand : Operand) :
    Restoring view own (unary op ty operand) := by
  cases op with
  | plus => exact .pure _
  | minus =>
    refine freshRegister_restoring.bind fun dest => ?_
    exact .bind (edit_restoring fun _ => rfl) fun _ => .pure _

theorem binary_restoring (op : BinaryOp) (ty : Ty) (left right : Operand) :
    Restoring view own (binary position op ty left right) := by
  refine freshRegister_restoring.bind fun dest => ?_
  split
  · exact fail_restoring _
  · exact .bind (edit_restoring fun _ => rfl) fun _ => .pure _

theorem load_restoring (name : String) : Restoring view own (load position name) := by
  refine (resolve_restoring name).bind fun r => freshRegister_restoring.bind fun dest => ?_
  exact .bind (edit_restoring fun _ => rfl) fun _ => .pure _

theorem declare_restoring (name : String) (ty : Ty) (value : Operand) :
    Restoring view (some name) (declare position name ty value) := by
  refine (allocateSlot_restoring name ty).bind fun slot => ?_
  refine .bind (edit_restoring fun _ => rfl) fun _ => ?_
  intro s
  unfold stateAfter
  rw [run_bind_of_ok (look_run _)]
  cases h : s.scopes.declare name slot with
  | error e => exact ⟨.refl, rfl⟩
  | ok scopes =>
    rw [run_bind_of_ok (liftScope_run position scopes), edit_run, Edit.apply_declare h]
    exact ⟨.declare h, rfl⟩

theorem assign_restoring (name : String) (value : Operand) :
    Restoring view own (assign position name value) :=
  (resolve_restoring name).bind fun _ => edit_restoring fun _ => rfl

theorem inFrame_restoring (hx : Confined view x) : Restoring view own (inFrame x) := by
  intro s
  let inside : State := { s with scopes := s.scopes.push }
  have hrun : stateAfter (inFrame x) s =
      { stateAfter x inside with scopes := (stateAfter x inside).scopes.pop } :=
    stateAfter_tryFinally x _ inside
  rw [hrun]
  exact ⟨.inl (hx inside).1, (hx inside).2⟩

theorem inLoop_restoring (targets : LoopTargets) (hx : Restoring view own x) :
    Restoring view own (inLoop targets x) := by
  intro s
  let enter (b : Builder) : Builder := { b with loops := targets :: b.loops }
  let leave (b : Builder) : Builder := { b with loops := b.loops.tail }
  let inside : State := { s with builder := enter s.builder }
  have hrun : stateAfter (inLoop targets x) s =
      { stateAfter x inside with builder := leave (stateAfter x inside).builder } :=
    stateAfter_tryFinally x _ inside
  rw [hrun]
  exact ⟨(hx inside).1, congrArg List.tail (hx inside).2⟩

theorem fill_restoring (block next : Nat) (hx : Restoring view none x) :
    Restoring view own (fill block next x) := by
  refine .bind (edit_restoring fun _ => rfl) fun _ => hx.bind fun _ => ?_
  exact edit_restoring fun _ => rfl

end Steps

theorem discard_restoring {x : Lowering α} (hx : Restoring view own x) :
    Restoring view own (discard x) := hx.last

theorem ifElse_restoring (condition : Operand) {x y : Lowering Unit} (hx : Restoring view none x)
    (hy : Restoring view none y) : Restoring view own (ifElse condition x y) := by
  refine (createBlock_restoring _).bind fun onTrue => ?_
  refine (createBlock_restoring _).bind fun onFalse => ?_
  refine (createBlock_restoring _).bind fun merge => ?_
  refine .bind (edit_restoring fun _ => rfl) fun _ => (fill_restoring _ _ hx).bind fun _ => ?_
  exact (fill_restoring _ _ hy).bind fun _ => edit_restoring fun _ => rfl

theorem whileLoop_restoring {x : Lowering Operand} {y : Lowering Unit}
    (hx : Restoring view none x) (hy : Restoring view none y) :
    Restoring view own (whileLoop x y) := by
  refine (createBlock_restoring _).bind fun header => ?_
  refine (createBlock_restoring _).bind fun inside => ?_
  refine (createBlock_restoring _).bind fun exit => ?_
  refine .bind (edit_restoring fun _ => rfl) fun _ => ?_
  refine .bind (edit_restoring fun _ => rfl) fun _ => hx.bind fun test => ?_
  refine .bind (edit_restoring fun _ => rfl) fun _ => ?_
  refine (fill_restoring _ _ (inLoop_restoring _ hy)).bind fun _ => ?_
  exact edit_restoring fun _ => rfl

theorem jump_restoring {position : Position} (target : LoopTargets → Nat) :
    Restoring view own (jump position target) := by
  refine (look_restoring _).bind fun loops => ?_
  split
  · exact fail_restoring _
  · refine .bind (edit_restoring fun _ => rfl) fun _ => ?_
    exact (createBlock_restoring _).bind fun dead => edit_restoring fun _ => rfl

mutual

theorem expr_restoring (types : Annotations) : (e : Expr) → Restoring view none (expr types e)
  | .literal _ value => by
    rw [expr]
    exact .pure _
  | .unary node op operand => by
    rw [expr]
    refine (typeOf_restoring types _).bind fun ty => ?_
    refine (expr_restoring types operand).bind fun r => (require_restoring r).bind fun o => ?_
    exact (unary_restoring op ty o).bind fun _ => .pure _
  | .binary node op left right => by
    rw [expr]
    refine (typeOf_restoring types _).bind fun ty => ?_
    refine (expr_restoring types left).bind fun r => (require_restoring r).bind fun a => ?_
    refine (expr_restoring types right).bind fun r => (require_restoring r).bind fun b => ?_
    exact (binary_restoring op ty a b).bind fun _ => .pure _
  | .load node name => by
    rw [expr]
    exact (load_restoring name).bind fun _ => .pure _
  | .compound _ body => by
    rw [expr]
    exact block_restoring types body

theorem block_restoring (types : Annotations) : (b : Block) → Restoring view none (block types b)
  | ⟨_, statements⟩ => by
    rw [block]
    exact inFrame_restoring (stmts_confined types none statements)

theorem stmt_restoring (types : Annotations) : (t : Stmt) → Restoring view t.name? (stmt types t)
  | .declareVar node name declared none => by
    rw [stmt]
    exact (typeOf_restoring types _).bind fun ty => (declare_restoring name ty _).last
  | .declareVar node name declared (some init) | .declareConst node name declared init => by
    rw [stmt]
    refine (typeOf_restoring types _).bind fun ty => ?_
    refine (expr_restoring types init).bind fun r => (require_restoring r).bind fun o => ?_
    exact (declare_restoring name ty o).last
  | .assign node name value => by
    rw [stmt]
    refine (expr_restoring types value).bind fun r => (require_restoring r).bind fun o => ?_
    exact (assign_restoring name o).bind fun _ => .pure _
  | .print _ value => by
    rw [stmt]
    refine (typeOf_restoring types _).bind fun ty => ?_
    refine (expr_restoring types value).bind fun r => (require_restoring r).bind fun o => ?_
    exact .bind (edit_restoring fun _ => rfl) fun _ => .pure _
  | .ifElse _ test consequence none => by
    rw [stmt]
    refine (expr_restoring types test).bind fun r => (require_restoring r).bind fun o => ?_
    have hblock := discard_restoring (block_restoring types consequence)
    exact (ifElse_restoring o hblock (.pure _)).bind fun _ => .pure _
  | .ifElse _ test consequence (some alternative) => by
    rw [stmt]
    refine (expr_restoring types test).bind fun r => (require_restoring r).bind fun o => ?_
    have hblock := discard_restoring (block_restoring types consequence)
    have hblock' := discard_restoring (block_restoring types alternative)
    exact (ifElse_restoring o hblock hblock').bind fun _ => .pure _
  | .whileLoop _ test body => by
    rw [stmt]
    have htest : Restoring view none (do require test.position (← expr types test)) :=
      (expr_restoring types test).bind require_restoring
    have hblock := discard_restoring (block_restoring types body)
    exact (whileLoop_restoring htest hblock).bind fun _ => .pure _
  | .breakLoop node | .continueLoop node => by
    rw [stmt]
    exact (jump_restoring _).bind fun _ => .pure _
  | .expr _ value => by
    rw [stmt]
    exact expr_restoring types value

theorem stmts_confined (types : Annotations) (last : Option Operand) :
    (list : List Stmt) → Confined view (stmts types last list)
  | [] => by
    rw [stmts]
    exact .pure _
  | t :: rest => by
    rw [stmts]
    exact (stmt_restoring types t).confined.bind fun r => stmts_confined types r rest

end

end Code.Lowering

end Leveret
