import Leveret.Eval.Basic
import Leveret.Proofs.Frames.Restoring

/-!
# Running restores the frames

A run assigns to names of outer frames, so that only the names are restored and not the values. A
block may also end in a jump, or in a failure. Its frame is dropped all the same.
-/

namespace Leveret

variable {α : Type} {own : Option String}

namespace Eval

/-- What a run has to put in order again: names, but not what they stand for. -/
def view (σ : State) : Chain Unit × Unit := (σ.scopes.bare, ())

section Steps

variable {position : Position} {x : Eval α}

theorem fail_restoring (cause : Cause) : Restoring view own (fail position cause : Eval α) :=
  .throw _

theorem lift_restoring (r : Except Cause α) : Restoring view own (lift position r) := by
  cases r with
  | ok a => exact .pure a
  | error cause => exact fail_restoring cause

theorem liftScope_restoring (r : Except ScopeError α) :
    Restoring view own (liftScope position r) := by
  cases r with
  | ok a => exact .pure a
  | error e => exact fail_restoring _

theorem require_restoring (v : Option Value) : Restoring view own (require position v) := by
  cases v with
  | some v => exact .pure v
  | none => exact fail_restoring _

theorem truth_restoring (v : Value) : Restoring view own (truth position v) := by
  cases v with
  | bool b => exact .pure b
  | int _ | float _ => exact fail_restoring _

theorem load_restoring (name : String) : Restoring view own (load position name) :=
  .get fun _ => liftScope_restoring _

theorem print_restoring (v : Value) : Restoring view own (print v) := .still fun _ => rfl

theorem blockValue_restoring (c : Completion) : Restoring view own (blockValue position c) := by
  cases c with
  | value v => exact .pure v
  | breaking | continuing => exact fail_restoring _

theorem rescope_restoring (change : Chain Value → Except ScopeError (Chain Value))
    (hchange : ∀ c c', change c = .ok c' → c.bare.Grows own c'.bare) :
    Restoring view own (do
      let scopes ← liftScope position (change (← get).scopes)
      modify fun σ => { σ with scopes }) := by
  intro σ
  unfold stateAfter
  rw [run_get_bind]
  cases h : change σ.scopes with
  | error e => exact ⟨.refl, rfl⟩
  | ok scopes => exact ⟨hchange _ _ h, rfl⟩

theorem declare_restoring (name : String) (v : Value) :
    Restoring view (some name) (declare position name v) :=
  rescope_restoring (·.declare name v) fun _ _ => Chain.Grows.bare_declare

theorem assign_restoring (name : String) (v : Value) :
    Restoring view own (assign position name v) :=
  rescope_restoring (·.assign name v) fun _ _ h => .inl (Chain.bare_assign h)

theorem inFrame_restoring (hx : Confined view x) : Restoring view own (inFrame x) := by
  intro σ
  let inside : State := { σ with scopes := σ.scopes.push }
  have hrun : stateAfter (inFrame x) σ =
      { stateAfter x inside with scopes := (stateAfter x inside).scopes.pop } :=
    stateAfter_tryFinally x _ inside
  rw [hrun]
  refine ⟨.inl ?_, rfl⟩
  exact ((stateAfter x inside).scopes.bare_pop).trans (hx inside).1

theorem loop_restoring {condition : Eval Bool} {body : Eval Completion}
    (hcondition : Restoring view none condition) (hbody : Restoring view none body) :
    ∀ limit, Restoring view none (loop condition body limit)
  | 0 => .throw _
  | limit + 1 => by
    rw [loop]
    refine hcondition.bind fun b => ?_
    cases b with
    | false => exact .pure _
    | true =>
      refine hbody.bind fun c => ?_
      cases c with
      | breaking => exact .pure _
      | value _ | continuing => exact loop_restoring hcondition hbody limit

end Steps

mutual

theorem expr_restoring (limit : Nat) : (e : Expr) → Restoring view none (expr limit e)
  | .literal _ value => by
    rw [expr]
    exact .pure _
  | .unary node op operand => by
    rw [expr]
    refine (expr_restoring limit operand).bind fun v => (require_restoring v).bind fun v => ?_
    exact lift_restoring _
  | .binary node op left right => by
    rw [expr]
    refine (expr_restoring limit left).bind fun v => (require_restoring v).bind fun a => ?_
    refine (expr_restoring limit right).bind fun v => (require_restoring v).bind fun b => ?_
    exact lift_restoring _
  | .load node name => by
    rw [expr]
    exact (load_restoring name).bind fun v => .pure _
  | .compound node body => by
    rw [expr]
    exact (block_restoring limit body).bind fun c => blockValue_restoring c

theorem block_restoring (limit : Nat) : (b : Block) → Restoring view none (block limit b)
  | ⟨_, statements⟩ => by
    rw [block]
    exact inFrame_restoring (stmts_confined limit none statements)

theorem stmt_restoring (limit : Nat) : (t : Stmt) → Restoring view t.name? (stmt limit t)
  | .declareVar node name none none => by
    rw [stmt]
    exact fail_restoring _
  | .declareVar node name (some ty) none => by
    rw [stmt]
    exact (declare_restoring name _).last
  | .declareVar node name declared (some init) | .declareConst node name declared init => by
    rw [stmt]
    refine (expr_restoring limit init).bind fun v => (require_restoring v).bind fun v => ?_
    exact (declare_restoring name v).last
  | .assign node name value => by
    rw [stmt]
    refine (expr_restoring limit value).bind fun v => (require_restoring v).bind fun v => ?_
    exact (assign_restoring name v).bind fun _ => .pure _
  | .print _ value => by
    rw [stmt]
    refine (expr_restoring limit value).bind fun v => (require_restoring v).bind fun v => ?_
    exact (print_restoring v).bind fun _ => .pure _
  | .ifElse _ test consequence none => by
    rw [stmt]
    refine (expr_restoring limit test).bind fun v => (require_restoring v).bind fun v => ?_
    refine (truth_restoring v).bind fun b => ?_
    cases b with
    | true => exact (block_restoring limit consequence).bind fun c => .pure _
    | false => exact .pure _
  | .ifElse _ test consequence (some alternative) => by
    rw [stmt]
    refine (expr_restoring limit test).bind fun v => (require_restoring v).bind fun v => ?_
    refine (truth_restoring v).bind fun b => ?_
    cases b with
    | true => exact (block_restoring limit consequence).bind fun c => .pure _
    | false => exact (block_restoring limit alternative).bind fun c => .pure _
  | .whileLoop _ test body => by
    rw [stmt]
    refine (loop_restoring ?_ (block_restoring limit body) limit).bind fun _ => .pure _
    refine (expr_restoring limit test).bind fun v => (require_restoring v).bind fun v => ?_
    exact truth_restoring v
  | .breakLoop _ | .continueLoop _ => by
    rw [stmt]
    exact .pure _
  | .expr _ value => by
    rw [stmt]
    exact (expr_restoring limit value).bind fun v => .pure _

theorem stmts_confined (limit : Nat) (last : Option Value) :
    (list : List Stmt) → Confined view (stmts limit last list)
  | [] => by
    rw [stmts]
    exact .pure _
  | t :: rest => by
    rw [stmts]
    refine (stmt_restoring limit t).confined.bind fun c => ?_
    cases c with
    | value v => exact stmts_confined limit v rest
    | breaking | continuing => exact .pure _

end

end Eval

end Leveret
