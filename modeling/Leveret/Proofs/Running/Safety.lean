import Leveret.Eval.Basic
import Leveret.Proofs.Steps
import Leveret.Proofs.Typing.Rules

/-!
# Well-typed programs run safely

A run of a well-typed tree in scopes that match its types comes to a value of its type, or it
stops because of a division by zero or because a loop is out of passes. It meets no other fault.
-/

namespace Leveret

/-- The ways a well-typed program may stop before its end. -/
inductive Halt.Allowed : Halt → Prop where
  | unfinished : Allowed .unfinished
  | divisionByZero {position} : Allowed (.failed ⟨.divisionByZero, position⟩)

def Declaration.Holds (d : Declaration) (v : Value) : Prop := d.ty = some v.ty

/-! ## Operators -/

namespace Value

theorem ty_zero (ty : Ty) : (zero ty).ty = ty := by
  cases ty <;> rfl

theorem applyUnary_of_result? {op : UnaryOp} {v : Value} {ty : Ty}
    (h : op.result? v.ty = some ty) : ∃ v', applyUnary op v = .ok v' ∧ v'.ty = ty := by
  cases v with
  | bool b => cases op <;> cases h
  | int n | float x => cases op <;> cases h <;> exact ⟨_, rfl, rfl⟩

theorem applyBinary_of_result? {op : BinaryOp} {a b : Value} {ty : Ty}
    (h : op.result? a.ty b.ty = some ty) :
    (∃ v, applyBinary op a b = .ok v ∧ v.ty = ty) ∨
      applyBinary op a b = .error .divisionByZero := by
  cases a with
  | int n =>
    cases b with
    | int m =>
      cases op <;> cases h
      case int.int.divide.refl =>
        by_cases hm : m = 0
        · exact .inr (if_pos hm)
        · exact .inl ⟨_, if_neg hm, rfl⟩
      all_goals exact .inl ⟨_, rfl, rfl⟩
    | float _ | bool _ => cases h
  | float x =>
    cases b with
    | float y => cases op <;> cases h <;> exact .inl ⟨_, rfl, rfl⟩
    | int _ | bool _ => cases h
  | bool p =>
    cases b with
    | bool q => cases op <;> cases h <;> exact .inl ⟨_, rfl, rfl⟩
    | int _ | float _ => cases h

end Value

namespace Eval

/-! ## Safe steps -/

/-- From `σ` the step ends as `post` says, or it stops in a way that is allowed. -/
def Safe {α : Type} (m : Eval α) (σ : State) (post : α → State → Prop) : Prop :=
  match m.run σ with
  | .ok a σ' => post a σ'
  | .error halt _ => halt.Allowed

section Safe

variable {α β : Type} {m : Eval α} {f : α → Eval β} {σ : State} {post post' : α → State → Prop}
  {Γ Γ' : Chain Declaration} {position : Position} {name : String}

theorem Safe.bind {postβ : β → State → Prop} (hm : Safe m σ post)
    (hf : ∀ a σ', post a σ' → Safe (f a) σ' postβ) : Safe (m >>= f) σ postβ := by
  unfold Safe at *
  rw [EStateM.run_bind]
  cases h : m.run σ with
  | ok a σ' =>
    rw [h] at hm
    exact hf a σ' hm
  | error halt σ' =>
    rw [h] at hm
    exact hm

theorem Safe.tryFinally {change : State → State}
    (hm : Safe m σ fun a σ' => post a (change σ')) :
    Safe (tryFinally m (modify change)) σ post := by
  unfold Safe at *
  rw [run_tryFinally]
  cases h : m.run σ with
  | ok a σ' =>
    rw [h] at hm
    exact hm
  | error halt σ' =>
    rw [h] at hm
    exact hm

theorem Safe.modify {g : Unit → Eval α} {change : State → State}
    (h : Safe (g ()) (change σ) post) : Safe (modify change >>= g) σ post := h

theorem Safe.mono (hm : Safe m σ post) (h : ∀ a σ', post a σ' → post' a σ') :
    Safe m σ post' := by
  unfold Safe at *
  cases hr : m.run σ with
  | ok a σ' =>
    rw [hr] at hm
    exact h a σ' hm
  | error halt σ' =>
    rw [hr] at hm
    exact hm

theorem Safe.of_run {a : α} {σ' : State} (hm : Safe m σ post) (h : m.run σ = .ok a σ') :
    post a σ' := by
  unfold Safe at hm
  rwa [h] at hm

theorem Safe.of_error {halt : Halt} {σ' : State} (hm : Safe m σ post)
    (h : m.run σ = .error halt σ') : halt.Allowed := by
  unfold Safe at hm
  rwa [h] at hm

def Matches (Γ : Chain Declaration) (σ : State) : Prop := Γ.Match Declaration.Holds σ.scopes

theorem require_safe {v : Option Value} {ty : Ty} (hv : v.map Value.ty = some ty) :
    Safe (require position v) σ fun v' σ' => v = some v' ∧ v'.ty = ty ∧ σ' = σ := by
  cases v with
  | none => cases hv
  | some v =>
    cases hv
    exact ⟨rfl, rfl, rfl⟩

theorem truth_safe {v : Value} (hv : v.ty = .bool) :
    Safe (truth position v) σ fun b σ' => v = .bool b ∧ σ' = σ := by
  cases v with
  | bool b => exact ⟨rfl, rfl⟩
  | int _ | float _ => cases hv

theorem Safe.required {m : Eval (Option Value)} {ty : Ty} {f : Value → Eval α}
    (hm : Safe m σ fun v σ' => v.map Value.ty = some ty ∧ Matches Γ σ')
    (hf : ∀ v σ', v.ty = ty → Matches Γ σ' → Safe (f v) σ' post) :
    Safe (m >>= fun v => require position v >>= f) σ post := by
  refine hm.bind fun v σ₁ ⟨hv, h₁⟩ => ?_
  refine (require_safe hv).bind fun v σ₂ ⟨_, hv, hs⟩ => ?_
  subst hs
  exact hf v _ hv h₁

theorem Safe.tested {position' : Position} {m : Eval (Option Value)} {f : Bool → Eval α}
    (hm : Safe m σ fun v σ' => v.map Value.ty = some .bool ∧ Matches Γ σ')
    (hf : ∀ b σ', Matches Γ σ' → Safe (f b) σ' post) :
    Safe (m >>= fun v => require position v >>= fun v => truth position' v >>= f) σ post := by
  refine hm.required fun v σ₁ hv h₁ => ?_
  refine (truth_safe hv).bind fun b σ₂ ⟨_, hs⟩ => ?_
  subst hs
  exact hf b _ h₁

theorem load_safe {isConst : Bool} {ty : Ty} (hσ : Matches Γ σ)
    (hf : Γ.find? name = some ⟨isConst, some ty⟩) :
    Safe (load position name) σ fun v σ' => v.ty = ty ∧ σ' = σ := by
  obtain ⟨v, hv, hty⟩ := hσ.resolve hf
  cases hty
  have h : (load position name).run σ = .ok v σ := by
    rw [load, run_get_bind, Chain.resolve, hv]
    rfl
  rw [Safe, h]
  exact ⟨rfl, rfl⟩

theorem declare_safe {isConst : Bool} {v : Value} {ty : Ty} (hσ : Matches Γ σ)
    (ha : Γ.Adds name ⟨isConst, some ty⟩ Γ') (hv : v.ty = ty) :
    Safe (declare position name v) σ fun _ σ' => Matches Γ' σ' := by
  obtain ⟨scopes, hd, hm⟩ := hσ.adds (b := v) ha (congrArg some hv.symm)
  have h : (declare position name v).run σ = .ok () { σ with scopes } := by
    rw [declare, run_get_bind, Chain.declare_eq_ok.2 hd]
    rfl
  rw [Safe, h]
  exact hm

theorem assign_safe {isConst : Bool} {v : Value} {ty : Ty} (hσ : Matches Γ σ)
    (hf : Γ.find? name = some ⟨isConst, some ty⟩) (hv : v.ty = ty) :
    Safe (assign position name v) σ fun _ σ' => Matches Γ σ' := by
  obtain ⟨others, scopes, -, ha, hm⟩ := hσ.assign hf v
  have h : (assign position name v).run σ = .ok () { σ with scopes } := by
    rw [assign, run_get_bind, ha]
    rfl
  rw [Safe, h]
  exact hm _ (congrArg some hv.symm) fun _ _ _ h => h

end Safe

/-! ## Trees -/

/-- How a statement with the type `r` ends: a value leaves the scopes `Γ'`, while a jump leaves
only those around the innermost frame of `Γ` in order. -/
def Ends (inLoop : Bool) (Γ Γ' : Chain Declaration) (r : Option Ty) : Completion → State → Prop
  | .value v, σ => v.map Value.ty = r ∧ Matches Γ' σ
  | _, σ => inLoop = true ∧ Γ.pop.Match Declaration.Holds σ.scopes.pop

def EndsBlock (inLoop : Bool) (Γ : Chain Declaration) (r : Option Ty) (c : Completion)
    (σ : State) : Prop :=
  Matches Γ σ ∧ match c with
    | .value v => v.map Value.ty = r
    | _ => inLoop = true

section Trees

variable {P : Nat → Ty → Prop} {inLoop : Bool} {Γ Γ' : Chain Declaration} {r : Option Ty}
  {limit : Nat} {σ : State}

theorem branchEnd_ends {c : Completion} (h : EndsBlock inLoop Γ r c σ) :
    Ends inLoop Γ Γ none (branchEnd c) σ := by
  cases c with
  | value v => exact ⟨rfl, h.1⟩
  | breaking | continuing => exact ⟨h.2, h.1.pop⟩

theorem inFrame_safe {m : Eval Completion} (hpop : Γ'.pop = Γ) (hσ : Matches Γ σ)
    (hm : ∀ σ, Matches Γ.push σ → Safe m σ (Ends inLoop Γ.push Γ' r)) :
    Safe (inFrame m) σ (EndsBlock inLoop Γ r) := by
  have hm := hm { σ with scopes := σ.scopes.push } hσ.push
  refine Safe.modify (.tryFinally (hm.mono fun c σ' hc => ?_))
  cases c with
  | value v => exact ⟨hpop ▸ hc.2.pop, hc.1⟩
  | breaking | continuing => exact ⟨hc.2, hc.1⟩

theorem loop_safe {condition : Eval Bool} {body : Eval Completion}
    (hcond : ∀ σ, Matches Γ σ → Safe condition σ fun _ σ' => Matches Γ σ')
    (hbody : ∀ σ, Matches Γ σ → Safe body σ fun _ σ' => Matches Γ σ') :
    ∀ limit σ, Matches Γ σ → Safe (loop condition body limit) σ fun _ σ' => Matches Γ σ' := by
  intro limit
  induction limit with
  | zero =>
    intro σ _
    exact .unfinished
  | succ limit ih =>
    intro σ hσ
    rw [loop]
    refine (hcond σ hσ).bind fun b σ₁ h₁ => ?_
    cases b with
    | false => exact h₁
    | true =>
      refine (hbody σ₁ h₁).bind fun c σ₂ h₂ => ?_
      cases c with
      | breaking => exact h₂
      | value _ | continuing => exact ih σ₂ h₂

end Trees

mutual

theorem expr_safe {P Γ e r} : Expr.HasType P Γ e r → ∀ limit σ, Matches Γ σ →
    Safe (expr limit e) σ fun v σ' => v.map Value.ty = r ∧ Matches Γ σ'
  | .literal _, limit, σ, hσ => by
    rw [expr]
    exact ⟨rfl, hσ⟩
  | .unary h hop _, limit, σ, hσ => by
    rw [expr]
    refine (expr_safe h limit σ hσ).required fun v σ₁ hv h₁ => ?_
    subst hv
    obtain ⟨v', hv', hty⟩ := Value.applyUnary_of_result? hop
    rw [hv']
    exact ⟨congrArg some hty, h₁⟩
  | .binary h h' hop _, limit, σ, hσ => by
    rw [expr]
    refine (expr_safe h limit σ hσ).required fun a σ₁ ha h₁ => ?_
    refine (expr_safe h' limit σ₁ h₁).required fun b σ₂ hb h₂ => ?_
    subst ha hb
    rcases Value.applyBinary_of_result? hop with ⟨v', hv', hty⟩ | hz
    · rw [hv']
      exact ⟨congrArg some hty, h₂⟩
    · rw [hz]
      exact .divisionByZero
  | .load hf _, limit, σ, hσ => by
    rw [expr]
    refine (load_safe hσ hf).bind fun v σ₁ ⟨hv, hs⟩ => ?_
    subst hs
    exact ⟨congrArg some hv, hσ⟩
  | .compound h _, limit, σ, hσ => by
    rw [expr]
    refine (block_safe h limit σ hσ).bind fun c σ₁ hc => ?_
    cases c with
    | value v => exact ⟨hc.2, hc.1⟩
    | breaking | continuing => cases hc.2

theorem block_safe {P inLoop Γ b r} : Block.HasType P inLoop Γ b r → ∀ limit σ, Matches Γ σ →
    Safe (block limit b) σ (EndsBlock inLoop Γ r)
  | .intro h, limit, σ, hσ => by
    rw [block]
    exact inFrame_safe h.pop hσ fun σ hσ => stmts_safe h none rfl limit σ hσ

theorem stmt_safe {P inLoop Γ Γ' s r} : Stmt.WellTyped P inLoop Γ s Γ' r →
    ∀ limit σ, Matches Γ σ → Safe (stmt limit s) σ (Ends inLoop Γ Γ' r)
  | .declareZero _ ha, limit, σ, hσ => by
    rw [stmt]
    exact (declare_safe hσ ha (Value.ty_zero _)).bind fun _ σ₁ h₁ => ⟨rfl, h₁⟩
  | .declareVar h _ _ ha, limit, σ, hσ | .declareConst h _ _ ha, limit, σ, hσ => by
    rw [stmt]
    refine (expr_safe h limit σ hσ).required fun v σ₁ hv h₁ => ?_
    exact (declare_safe h₁ ha hv).bind fun _ σ₁ h₁ => ⟨rfl, h₁⟩
  | .assign h hf, limit, σ, hσ => by
    rw [stmt]
    refine (expr_safe h limit σ hσ).required fun v σ₁ hv h₁ => ?_
    exact (assign_safe h₁ hf hv).bind fun _ σ₁ h₁ => ⟨rfl, h₁⟩
  | .print h, limit, σ, hσ => by
    rw [stmt]
    refine (expr_safe h limit σ hσ).required fun v σ₁ hv h₁ => ?_
    exact ⟨rfl, h₁⟩
  | .ifOnly h hb, limit, σ, hσ => by
    rw [stmt]
    refine (expr_safe h limit σ hσ).tested fun b σ₁ h₁ => ?_
    cases b with
    | true => exact (block_safe hb limit σ₁ h₁).bind fun c σ₁ hc => branchEnd_ends hc
    | false => exact ⟨rfl, h₁⟩
  | .ifElse h hb hb', limit, σ, hσ => by
    rw [stmt]
    refine (expr_safe h limit σ hσ).tested fun b σ₁ h₁ => ?_
    cases b with
    | true => exact (block_safe hb limit σ₁ h₁).bind fun c σ₁ hc => branchEnd_ends hc
    | false => exact (block_safe hb' limit σ₁ h₁).bind fun c σ₁ hc => branchEnd_ends hc
  | .whileLoop h hb, limit, σ, hσ => by
    rw [stmt]
    have hcond := fun σ hσ => expr_safe h limit σ hσ
    have hbody := fun σ hσ => block_safe hb limit σ hσ
    refine (loop_safe (fun σ hσ => ?_) (fun σ hσ => (hbody σ hσ).mono fun _ _ h => h.1) limit σ
      hσ).bind fun _ σ₁ h₁ => ⟨rfl, h₁⟩
    refine (hcond σ hσ).required fun v σ₁ hv h₁ => (truth_safe hv).mono fun _ _ h => ?_
    rw [h.2]
    exact h₁
  | .breakLoop, limit, σ, hσ | .continueLoop, limit, σ, hσ => by
    rw [stmt]
    exact ⟨rfl, hσ.pop⟩
  | .expr h, limit, σ, hσ => by
    rw [stmt]
    exact (expr_safe h limit σ hσ).bind fun v σ₁ h => h

theorem stmts_safe {P inLoop Γ Γ' last list r} : Sequence P inLoop Γ last list Γ' r →
    ∀ v, Option.map Value.ty v = last → ∀ limit σ, Matches Γ σ →
    Safe (stmts limit v list) σ (Ends inLoop Γ Γ' r)
  | .nil, v, hv, limit, σ, hσ => by
    rw [stmts]
    exact ⟨hv, hσ⟩
  | .cons h hrest, _, _, limit, σ, hσ => by
    rw [stmts]
    refine (stmt_safe h limit σ hσ).bind fun c σ₁ hc => ?_
    cases c with
    | value v =>
      refine (stmts_safe hrest v hc.1 limit σ₁ hc.2).mono fun c σ₂ hc => ?_
      cases c with
      | value v => exact hc
      | breaking | continuing => exact ⟨hc.1, h.pop ▸ hc.2⟩
    | breaking | continuing => exact hc

end

end Eval

end Leveret
