import Leveret.Proofs.Code.Correspondence
import Leveret.Proofs.Running.Reached

/-!
# Code does what the program does

A well-typed tree is lowered without a fault, and wherever the code for it is run, the machine
keeps up with the evaluator and divides no whole numbers but those that the evaluator divides.
-/

namespace Leveret.Code

open Lowering (State)

/-! ## Operators -/

section Operators

variable {m : Machine} {x y : Operand} {a b : Value} {dest : Nat} {ty : Ty}

theorem instruction_binary {op : Opcode} (hx : m.value x = .ok a) (hy : m.value y = .ok b) :
    m.instruction (.binary dest op ty x y) = (op.apply a b).map (m.assign dest) := by
  rw [Machine.instruction, hx, hy]
  change (op.apply a b >>= fun v => .ok (m.assign dest v)) = _
  cases op.apply a b <;> rfl

theorem instruction_icmp {p : Predicate} (hx : m.value x = .ok a) (hy : m.value y = .ok b) :
    m.instruction (.icmp dest p ty x y) = (p.applyInt a b).map (m.assign dest) := by
  rw [Machine.instruction, hx, hy]
  change (p.applyInt a b >>= fun v => .ok (m.assign dest v)) = _
  cases p.applyInt a b <;> rfl

theorem instruction_fcmp {p : Predicate} (hx : m.value x = .ok a) (hy : m.value y = .ok b) :
    m.instruction (.fcmp dest p x y) = (p.applyFloat a b).map (m.assign dest) := by
  rw [Machine.instruction, hx, hy]
  change (p.applyFloat a b >>= fun v => .ok (m.assign dest v)) = _
  cases p.applyFloat a b <;> rfl

end Operators

/-- There is an instruction for every operation that has a type, and it does the same. It divides
whole numbers for such a division only. -/
theorem binaryInstruction?_spec {op : BinaryOp} {ty ty' ty'' : Ty}
    (h : op.result? ty ty' = some ty'') (dest : Nat) (x y : Operand) :
    ∃ i, Lowering.binaryInstruction? op ty dest x y = some i ∧
      ∀ (m : Machine) (a b : Value), a.ty = ty → b.ty = ty' → m.value x = .ok a →
        m.value y = .ok b →
        (m.instruction i = match Value.applyBinary op a b with
          | .ok v => .ok (m.assign dest v)
          | .error _ => .error .divisionByZero) ∧
        ∀ n k, i.Divides m n k → op = .divide ∧ a = .int n ∧ b = .int k := by
  cases ty <;> cases ty' <;> cases op <;> cases h
  all_goals
    refine ⟨_, rfl, fun m a b ha hb hx hy => ?_⟩
    cases a <;> cases ha
    cases b <;> cases hb
    first
    | refine ⟨(instruction_binary hx hy).trans ?_, ?_⟩
    | refine ⟨(instruction_icmp hx hy).trans ?_, nofun⟩
    | refine ⟨(instruction_fcmp hx hy).trans ?_, nofun⟩
  -- Only a division can go wrong, and both do so for the same divisor.
  case int.int.divide.refl.int.refl.int.refl =>
    simp only [Opcode.apply, Value.applyBinary, Value.applyInt]
    split <;> rfl
  case int.int.divide.refl.int.refl.int.refl =>
    rintro n k ⟨hn, hk⟩
    exact ⟨rfl, Except.ok.inj (hx.symm.trans hn), Except.ok.inj (hy.symm.trans hk)⟩
  all_goals first | rfl | nofun

/-! ## Runs of code -/

/-- Where the code for something in the scopes `Γ` may be begun. -/
structure Starts (Γ : Chain Declaration) (s : State) (σ : Eval.State) (m : Machine) : Prop where
  types : Eval.Matches Γ σ
  state : Corresponds s.scopes σ m
  place : At s.builder m

/-- Where the code made between `s` and `s'` ends when there is nothing to jump to. -/
structure Ran (s s' : State) (r : Option Operand) (m : Machine) (v : Option Value)
    (σ' : Eval.State) (m' : Machine) : Prop where
  state : Corresponds s'.scopes σ' m'
  place : At s'.builder m'
  kept : Keeps s.builder.nextRegister m m'
  result : Yields m' r v

/-- The code for an expression, made between `s` and `s'`, gives the operand `r`. -/
structure ExprCode (p : Program) (Γ : Chain Declaration) (e : Expr) (ty : Option Ty)
    (s : State) (r : Option Operand) (s' : State) : Prop where
  grown : s.builder.Grown s'.builder
  scopes : s'.scopes = s.scopes
  isSome : r.isSome = ty.isSome
  below : ∀ o ∈ r, o.Below s'.builder.nextRegister
  simulates : ∀ (f : Function) limit σ m, Extends s'.builder.blocks f.blocks → Starts Γ s σ m →
    p.Meets limit (.expr e) σ →
    Simulates f (p.Divides limit) limit m ((Eval.expr limit e).run σ) (Ran s s' r m)

structure OperandCode (p : Program) (Γ : Chain Declaration) (e : Expr) (ty : Ty) (s : State)
    (o : Operand) (s' : State) : Prop where
  grown : s.builder.Grown s'.builder
  scopes : s'.scopes = s.scopes
  below : o.Below s'.builder.nextRegister
  simulates : ∀ (f : Function) limit σ m, Extends s'.builder.blocks f.blocks → Starts Γ s σ m →
    p.Meets limit (.expr e) σ →
    Simulates f (p.Divides limit) limit m ((Eval.expr limit e >>= Eval.require e.position).run σ)
      fun v σ' m' => (v.ty = ty ∧ (Eval.expr limit e).run σ = .ok (some v) σ') ∧
        Starts Γ s' σ' m' ∧ Keeps s.builder.nextRegister m m' ∧ m'.value o = .ok v

section Expressions

variable {p : Program} {types : Annotations} {Γ : Chain Declaration} {s s' : State}
  {P : Nat → Ty → Prop}

theorem Fits.of_code (h : Fits Γ s) (hg : s.builder.Grown s'.builder)
    (hs : s'.scopes = s.scopes) : Fits Γ s' := by
  obtain ⟨b, scopes⟩ := s'
  cases hs
  exact h.grown hg

theorem typeOf_run {id : Nat} {ty : Ty} {position : Position} (h : types.Notes id ty) :
    (Lowering.typeOf types id position).run s = .ok ty s := by
  rw [Annotations.Notes] at h
  rw [Lowering.typeOf, h]
  rfl

theorem require_run {o : Operand} {position : Position} :
    (Lowering.require position (some o)).run s = .ok o s := rfl

theorem look_run {α : Type} (f : State → α) : (Lowering.look f).run s = .ok (f s) s := rfl

theorem edit_run (e : Edit) : (Lowering.edit e).run s = .ok () (e.apply s) := rfl

theorem freshRegister_run : Lowering.freshRegister.run s =
    .ok s.builder.nextRegister { s with builder := s.builder.freshRegister.2 } := rfl

theorem allocateSlot_run (name : String) (ty : Ty) : (Lowering.allocateSlot name ty).run s =
    .ok s.builder.slots.size { s with builder := (s.builder.allocateSlot name ty).2 } := rfl

theorem liftScope_run {α : Type} (position : Position) (a : α) :
    (Lowering.liftScope position (.ok a)).run s = .ok a s := rfl

theorem resolve_run {position : Position} {name : String} {slot : Nat}
    (h : s.scopes.find? name = some slot) : (Lowering.resolve position name).run s =
      .ok (slot, (s.builder.slotType? slot).getD default) s := by
  rw [Lowering.resolve, run_bind_of_ok (look_run _), Chain.resolve, h]
  rfl

theorem declare_run {position : Position} {name : String} {ty : Ty} {o : Operand}
    {scopes : Chain Nat} (h : s.scopes.declare name s.builder.slots.size = .ok scopes) :
    (Lowering.declare position name ty o).run s = .ok ()
      ⟨(s.builder.allocateSlot name ty).2.emit (.store s.builder.slots.size ty o), scopes⟩ := by
  rw [Lowering.declare, run_bind_of_ok (allocateSlot_run name ty), run_bind_of_ok (edit_run _),
    run_bind_of_ok (look_run _)]
  dsimp only [Edit.apply]
  rw [h, run_bind_of_ok (liftScope_run _ _), edit_run]
  exact congrArg (EStateM.Result.ok ()) (Edit.apply_declare h)

theorem ExprCode.operand {e : Expr} {ty : Ty} {r : Option Operand} (he : e.HasType P Γ (some ty))
    (h : ExprCode p Γ e (some ty) s r s') : ∃ o, r = some o ∧ OperandCode p Γ e ty s o s' := by
  obtain ⟨o, rfl⟩ := Option.isSome_iff_exists.1 h.isSome
  refine ⟨o, rfl, h.grown, h.scopes, h.below o rfl, ?_⟩
  intro f limit σ m hf hm hmeets
  refine ((h.simulates f limit σ m hf hm hmeets).and_run.and_safe
    (Eval.expr_safe he limit σ hm.types)).bind ?_
  intro v σ' m' ⟨⟨hran, hrun⟩, hty, hσ'⟩
  cases v with
  | none => cases hty
  | some v =>
    refine .here ⟨⟨Option.some.inj hty, hrun⟩, ⟨hσ', hran.state, hran.place⟩, hran.kept,
      hran.result⟩

theorem operand_code {e : Expr} {ty : Ty} (hs : Fits Γ s) (he : e.HasType P Γ (some ty))
    (h : ∃ r s', (Lowering.expr types e).run s = .ok r s' ∧ ExprCode p Γ e (some ty) s r s') :
    ∃ o s', (Lowering.expr types e).run s = .ok (some o) s' ∧ OperandCode p Γ e ty s o s' ∧
      Fits Γ s' := by
  obtain ⟨_, s', hrun, hc⟩ := h
  obtain ⟨o, rfl, ho⟩ := hc.operand he
  exact ⟨o, s', hrun, ho, hs.of_code ho.grown ho.scopes⟩

theorem literal_code (node : Node) (value : Value) (hs : Fits Γ s) :
    ExprCode p Γ (.literal node value) (some value.ty) s (some (.constant value)) s where
  grown := .refl hs.ready
  scopes := rfl
  isSome := rfl
  below o ho := by
    cases ho
    trivial
  simulates f limit σ m _ hm _ := by
    rw [Eval.expr]
    exact .here ⟨hm.state, hm.place, .refl, rfl⟩

theorem unary_code {op : UnaryOp} {ty ty' : Ty} {node : Node} {e : Expr} {o : Operand}
    (hop : op.result? ty = some ty') (hn : types.Notes node.id ty')
    (hrun : (Lowering.expr types e).run s = .ok (some o) s')
    (hc : OperandCode p Γ e ty s o s') :
    ∃ r s'', (Lowering.expr types (.unary node op e)).run s = .ok r s'' ∧
      ExprCode p Γ (.unary node op e) (some ty') s r s'' := by
  have hinside {limit : Nat} {σ : Eval.State} (h : p.Meets limit (.expr (.unary node op e)) σ) :
      p.Meets limit (.expr e) σ := h.imp fun _ => .operand
  cases op with
  | plus =>
    refine ⟨some o, s', ?_, hc.grown, hc.scopes, rfl, ?_, ?_⟩
    · rw [Lowering.expr, run_bind_of_ok (typeOf_run hn), run_bind_of_ok hrun,
        run_bind_of_ok require_run]
      rfl
    · rintro _ ⟨⟩
      exact hc.below
    · intro f limit σ m hf hm hmeets
      rw [Eval.expr, ← bind_assoc]
      refine (hc.simulates f limit σ m hf hm (hinside hmeets)).bind ?_
      rintro v σ₁ m₁ ⟨⟨hv, -⟩, hm₁, hk, ho⟩
      have happly : Value.applyUnary .plus v = .ok v := by
        cases v with
        | bool b =>
          subst hv
          cases hop
        | int _ | float _ => rfl
      rw [happly]
      exact .here ⟨hm₁.state, hm₁.place, hk, ho⟩
  | minus =>
    let dest := s'.builder.nextRegister
    let b := s'.builder.freshRegister.2.emit (.neg dest ty' o)
    have hg : s'.builder.Grown b :=
      (Builder.freshRegister_grown hc.grown.ready).trans (Builder.emit_grown hc.grown.ready)
    refine ⟨some (.register dest), { s' with builder := b }, ?_, hc.grown.trans hg, hc.scopes, rfl,
      ?_, ?_⟩
    · rw [Lowering.expr, run_bind_of_ok (typeOf_run hn), run_bind_of_ok hrun,
        run_bind_of_ok require_run]
      rfl
    · rintro _ ⟨⟩
      exact Nat.lt_succ_self dest
    · intro f limit σ m hf hm hmeets
      rw [Eval.expr, ← bind_assoc]
      refine (hc.simulates f limit σ m (hg.within.blocks.trans hf) hm (hinside hmeets)).bind ?_
      rintro v σ₁ m₁ ⟨⟨hv, -⟩, hm₁, hk, ho⟩
      have hneg : ∃ v', Value.applyUnary .minus v = .ok v' ∧
          m₁.instruction (.neg dest ty' o) = .ok (m₁.assign dest v') := by
        rw [Machine.instruction, ho]
        cases v with
        | bool b =>
          subst hv
          cases hop
        | int _ | float _ => exact ⟨_, rfl, rfl⟩
      obtain ⟨v', hv', hi⟩ := hneg
      rw [hv']
      refine .emit (b := s'.builder.freshRegister.2) hm₁.place hf hi (fun _ _ => False.elim)
        (.here ⟨hm₁.state.assignRegister, ?_, ?_, ?_⟩)
      · exact at_emit hm₁.place rfl rfl
      · exact hk.trans (.assign hc.grown.within.registers)
      · exact value_assign

theorem binary_code {op : BinaryOp} {ty ty' ty'' : Ty} {node : Node} {e e' : Expr}
    {x y : Operand} {s'' : State} (hop : op.result? ty ty' = some ty'')
    (hn : types.Notes e.id ty)
    (hrun : (Lowering.expr types e).run s = .ok (some x) s')
    (hc : OperandCode p Γ e ty s x s')
    (hrun' : (Lowering.expr types e').run s' = .ok (some y) s'')
    (hc' : OperandCode p Γ e' ty' s' y s'') :
    ∃ r t, (Lowering.expr types (.binary node op e e')).run s = .ok r t ∧
      ExprCode p Γ (.binary node op e e') (some ty'') s r t := by
  let dest := s''.builder.nextRegister
  obtain ⟨i, hi, hspec⟩ := binaryInstruction?_spec hop dest x y
  let b := s''.builder.freshRegister.2.emit i
  have hg : s''.builder.Grown b :=
    (Builder.freshRegister_grown hc'.grown.ready).trans (Builder.emit_grown hc'.grown.ready)
  have hregisters := Nat.le_trans hc.grown.within.registers hc'.grown.within.registers
  refine ⟨some (.register dest), { s'' with builder := b }, ?_,
    hc.grown.trans (hc'.grown.trans hg), hc'.scopes.trans hc.scopes, rfl, ?_, ?_⟩
  · have hbinary : (Lowering.binary node.span.start op ty x y).run s'' =
        .ok (.register dest) { s'' with builder := b } := by
      rw [Lowering.binary, run_bind_of_ok freshRegister_run, hi]
      rfl
    rw [Lowering.expr, run_bind_of_ok (typeOf_run hn), run_bind_of_ok hrun,
      run_bind_of_ok require_run, run_bind_of_ok hrun', run_bind_of_ok require_run,
      run_bind_of_ok hbinary]
    rfl
  · rintro _ ⟨⟩
    exact Nat.lt_succ_self dest
  · intro f limit σ m hf hm hmeets
    have hf' := hg.within.blocks.trans hf
    rw [Eval.expr, ← bind_assoc]
    refine (hc.simulates f limit σ m (hc'.grown.within.blocks.trans hf') hm
      (hmeets.imp fun _ => .left)).bind ?_
    rintro v σ₁ m₁ ⟨⟨hv, hleft⟩, hm₁, hk, hx⟩
    rw [← bind_assoc]
    refine (hc'.simulates f limit σ₁ m₁ hf' hm₁ (hmeets.imp fun _ h => .right h hleft)).bind ?_
    rintro w σ₂ m₂ ⟨⟨hw, hright⟩, hm₂, hk', hy⟩
    obtain ⟨hstep, hdivides⟩ := hspec m₂ v w hv hw (hk'.value hc.below hx) hy
    have hallowed : ∀ a b, i.Divides m₂ a b → p.Divides limit a b := by
      intro a b hdiv
      obtain ⟨rfl, rfl, rfl⟩ := hdivides a b hdiv
      exact ⟨node, e, e', σ, σ₁, σ₂, hmeets, hleft, hright⟩
    have hplace : m₂.step f = m₂.instruction i := step_of_emit hm₂.place hf
    cases happly : Value.applyBinary op v w with
    | ok u =>
      rw [happly] at hstep
      refine .emit (b := s''.builder.freshRegister.2) hm₂.place hf hstep hallowed
        (.here ⟨hm₂.state.assignRegister, at_emit hm₂.place rfl rfl, ?_, value_assign⟩)
      exact (hk.trans (hk'.mono hc.grown.within.registers)).trans (.assign hregisters)
    | error cause =>
      rw [happly] at hstep
      exact ⟨1, m₂, Machine.run_one_of_error (hplace.trans hstep), hm₂.state.output⟩

theorem load_code {name : String} {node : Node} {isConst : Bool} {ty : Ty} (hs : Fits Γ s)
    (hf : Γ.find? name = some ⟨isConst, some ty⟩) :
    ∃ r s', (Lowering.expr types (.load node name)).run s = .ok r s' ∧
      ExprCode p Γ (.load node name) (some ty) s r s' := by
  obtain ⟨slot, hslot, hlt, hty⟩ := hs.scopes.resolve hf
  let dest := s.builder.nextRegister
  let i : Instruction := .load dest slot ((s.builder.slotType? slot).getD default)
  let b := s.builder.freshRegister.2.emit i
  have hg : s.builder.Grown b :=
    (Builder.freshRegister_grown hs.ready).trans (Builder.emit_grown hs.ready)
  refine ⟨some (.register dest), { s with builder := b }, ?_, hg, rfl, rfl, ?_, ?_⟩
  · rw [Lowering.expr, Lowering.load, bind_assoc, run_bind_of_ok (resolve_run hslot)]
    rfl
  · rintro _ ⟨⟩
    exact Nat.lt_succ_self dest
  · intro f limit σ m hf hm _
    obtain ⟨v, hv, hm'⟩ := hm.state.values.resolve hslot
    have hrun : (Eval.expr limit (.load node name)).run σ = .ok (some v) σ := by
      rw [Eval.expr, Eval.load, bind_assoc, run_get_bind, Chain.resolve, hv]
      rfl
    have hi : m.instruction i = .ok (m.assign dest v) := by
      rw [Machine.instruction, hm']
    rw [hrun]
    exact .emit (b := s.builder.freshRegister.2) hm.place hf hi (fun _ _ => False.elim) (.here
      ⟨hm.state.assignRegister, at_emit hm.place rfl rfl, .assign (Nat.le_refl _), value_assign⟩)

end Expressions

/-! ## Statements -/

structure Jumped (s : State) (target : LoopTargets → Nat) (m m' : Machine) : Prop where
  place : ∃ targets rest, s.builder.loops = targets :: rest ∧ Begins (target targets) m'
  kept : Keeps s.builder.nextRegister m m'

/-- Where the code of a statement ends. A jump leaves only the scopes around the innermost frame
in order. -/
def Ended (s s' : State) (r : Option Operand) (m : Machine) :
    Completion → Eval.State → Machine → Prop
  | .value v, σ', m' => Ran s s' r m v σ' m'
  | .breaking, σ', m' => Jumped s (·.exit) m m' ∧
      Corresponds s.scopes.pop { σ' with scopes := σ'.scopes.pop } m'
  | .continuing, σ', m' => Jumped s (·.header) m m' ∧
      Corresponds s.scopes.pop { σ' with scopes := σ'.scopes.pop } m'

/-- What lowering a statement comes to: scopes for what follows, and an operand if it has a
type. -/
structure Lowered (Γ' : Chain Declaration) (ty : Option Ty) (s : State) (r : Option Operand)
    (s' : State) : Prop where
  grown : s.builder.Grown s'.builder
  fits : Fits Γ' s'
  outer : s'.scopes.pop = s.scopes.pop
  isSome : r.isSome = ty.isSome
  below : ∀ o ∈ r, o.Below s'.builder.nextRegister

theorem Lowered.valueless {Γ' : Chain Declaration} {s s' : State}
    (hg : s.builder.Grown s'.builder) (hs : Fits Γ' s') (ho : s'.scopes.pop = s.scopes.pop) :
    Lowered Γ' none s none s' := ⟨hg, hs, ho, rfl, fun _ h => by cases h⟩

/-- Wherever the code between `s` and `s'` is run for a task of the program, the machine keeps
up. -/
def KeepsUp (p : Program) (Γ : Chain Declaration) (task : Task) (run : Nat → Eval Completion)
    (s : State) (r : Option Operand) (s' : State) : Prop :=
  ∀ (f : Function) limit σ m, Extends s'.builder.blocks f.blocks → Starts Γ s σ m →
    p.Meets limit task σ →
    Simulates f (p.Divides limit) limit m ((run limit).run σ) (Ended s s' r m)

/-- The code between `s` and `s'` does what is left of a statement once the operand is there. -/
def Finishes (Γ : Chain Declaration) (ty : Ty) (o : Operand) (finish : Value → Eval Completion)
    (s s' : State) : Prop :=
  ∀ (f : Function) W limit σ m v, Extends s'.builder.blocks f.blocks → Starts Γ s σ m →
    v.ty = ty → m.value o = .ok v →
    Simulates f W limit m ((finish v).run σ) fun c σ' m' =>
      c = .value none ∧ Ran s s' none m none σ' m'

section Statements

variable {p : Program} {types : Annotations} {Γ Γ' : Chain Declaration} {s s' s'' : State}
  {o : Operand} {name : String} {ty : Ty} {position : Position}

theorem Ran.of_kept {r : Option Operand} {v : Option Value} {σ' : Eval.State} {m m₁ m' : Machine}
    (h : Ran s' s'' r m₁ v σ' m') (hk : Keeps s.builder.nextRegister m m₁)
    (hn : s.builder.nextRegister ≤ s'.builder.nextRegister) : Ran s s'' r m v σ' m' :=
  ⟨h.state, h.place, hk.trans (h.kept.mono hn), h.result⟩

theorem Finishes.keepsUp {e : Expr} {t : Stmt} {finish : Value → Eval Completion}
    (hfinish : Finishes Γ ty o finish s' s'') (hg : s'.builder.Grown s''.builder)
    (hc : OperandCode p Γ e ty s o s')
    (hmeets : ∀ limit σ, p.Meets limit (.stmt t) σ → p.Meets limit (.expr e) σ) :
    KeepsUp p Γ (.stmt t)
      (fun limit => Eval.expr limit e >>= fun x => Eval.require e.position x >>= finish)
      s none s'' := by
  intro f limit σ m hf hm ht
  dsimp only
  rw [← bind_assoc]
  refine (hc.simulates f limit σ m (hg.within.blocks.trans hf) hm (hmeets limit σ ht)).bind ?_
  rintro v σ₁ m₁ ⟨⟨hv, -⟩, hm₁, hk, hx⟩
  refine (hfinish f (p.Divides limit) limit σ₁ m₁ v hf hm₁ hv hx).mono ?_
  rintro c σ' m' ⟨hc', hran⟩
  subst hc'
  exact hran.of_kept hk hc.grown.within.registers

theorem declare_code {isConst : Bool} (hs : Fits Γ s)
    (ha : Γ.Adds name ⟨isConst, some ty⟩ Γ') :
    ∃ s', (Lowering.declare position name ty o).run s = .ok () s' ∧ Lowered Γ' none s none s' ∧
      Finishes Γ ty o (fun v => do Eval.declare position name v; return .value none) s s' := by
  let slot := s.builder.slots.size
  let i : Instruction := .store slot ty o
  let b := (s.builder.allocateSlot name ty).2.emit i
  have hg : (s.builder.allocateSlot name ty).2.Grown b := Builder.emit_grown hs.ready
  obtain ⟨scopes, hadds, hfits⟩ := hs.adds hg ha
  refine ⟨⟨b, scopes⟩, declare_run (Chain.declare_eq_ok.2 hadds), ?_, ?_⟩
  · exact .valueless ((Builder.allocateSlot_grown hs.ready).trans hg) hfits hadds.pop
  · intro f W limit σ m v hf hm _ hv
    obtain ⟨values, hvalues, hcorr⟩ := hm.state.adds (m.index + 1) v
      (fun old hold => hs.bounded hold) hadds
    have hrun : (Eval.declare position name v).run σ = .ok () { σ with scopes := values } := by
      rw [Eval.declare, run_get_bind, hvalues]
      rfl
    have hi : m.instruction i =
        .ok { m with slots := m.slots.insert slot v, index := m.index + 1 } := by
      rw [Machine.instruction, hv]
      rfl
    rw [run_bind_of_ok hrun]
    exact .emit (b := (s.builder.allocateSlot name ty).2) hm.place hf hi (fun _ _ => False.elim)
      (.here ⟨rfl, hcorr, at_emit hm.place rfl rfl, .refl, trivial⟩)

theorem assign_code (hs : Fits Γ s) (hf : Γ.find? name = some ⟨false, some ty⟩) :
    ∃ s', (Lowering.assign position name o).run s = .ok () s' ∧ Lowered Γ none s none s' ∧
      Finishes Γ ty o (fun v => do Eval.assign position name v; return .value none) s s' := by
  obtain ⟨slot, hslot, hlt, hty⟩ := hs.scopes.resolve hf
  let i : Instruction := .store slot ((s.builder.slotType? slot).getD default) o
  have hg : s.builder.Grown (s.builder.emit i) := Builder.emit_grown hs.ready
  refine ⟨{ s with builder := s.builder.emit i }, ?_, ?_, ?_⟩
  · rw [Lowering.assign, run_bind_of_ok (resolve_run hslot)]
    rfl
  · exact .valueless hg (hs.grown hg) rfl
  · intro f W limit σ m v hf hm _ hv
    obtain ⟨values, hvalues, hcorr⟩ := hm.state.assign (m.index + 1) v hs.distinct hslot
    have hrun : (Eval.assign position name v).run σ = .ok () { σ with scopes := values } := by
      rw [Eval.assign, run_get_bind, hvalues]
      rfl
    have hi : m.instruction i =
        .ok { m with slots := m.slots.insert slot v, index := m.index + 1 } := by
      rw [Machine.instruction, hv]
      rfl
    rw [run_bind_of_ok hrun]
    exact .emit hm.place hf hi (fun _ _ => False.elim)
      (.here ⟨rfl, hcorr, at_emit hm.place rfl rfl, .refl, trivial⟩)

theorem print_code (hs : Fits Γ s) :
    ∃ s', (Lowering.edit (.emit (.call (printer ty) [(ty, o)]))).run s = .ok () s' ∧
      Lowered Γ none s none s' ∧
      Finishes Γ ty o (fun v => do Eval.print v; return .value none) s s' := by
  let i : Instruction := .call (printer ty) [(ty, o)]
  have hg : s.builder.Grown (s.builder.emit i) := Builder.emit_grown hs.ready
  refine ⟨{ s with builder := s.builder.emit i }, rfl, .valueless hg (hs.grown hg) rfl, ?_⟩
  intro f W limit σ m v hf hm hty hv
  have hi : m.instruction i =
      .ok { m with output := m.output.push v.text, index := m.index + 1 } := by
    rw [Machine.instruction, Machine.call, hv]
    exact if_pos ⟨rfl, hty⟩
  have hcorr : Corresponds s.scopes { σ with output := σ.output.push v.text }
      { m with output := m.output.push v.text, index := m.index + 1 } :=
    ⟨hm.state.values, by rw [hm.state.output]⟩
  rw [run_bind_of_ok (show (Eval.print v).run σ = .ok () _ from rfl)]
  exact .emit hm.place hf hi (fun _ _ => False.elim)
    (.here ⟨rfl, hcorr, at_emit hm.place rfl rfl, .refl, trivial⟩)

theorem jump_code (target : LoopTargets → Nat) (hs : Fits Γ s) (hl : s.builder.loops ≠ []) :
    ∃ s', (Lowering.jump position target).run s = .ok () s' ∧ Lowered Γ none s none s' ∧
      ∀ (f : Function) W σ m, Extends s'.builder.blocks f.blocks → Starts Γ s σ m →
        ∃ m', Advances f W 1 m m' ∧ Jumped s target m m' ∧
          Corresponds s.scopes.pop { σ with scopes := σ.scopes.pop } m' := by
  obtain ⟨targets, rest, hloops⟩ := List.exists_cons_of_ne_nil hl
  have hg := Builder.jump_grown (t := .br (target targets)) hs.ready
  refine ⟨{ s with builder := s.builder.jump (.br (target targets)) }, ?_,
    .valueless hg (hs.grown hg) rfl, fun f W σ m hf hm => ?_⟩
  · rw [Lowering.jump, run_bind_of_ok (look_run _), hloops]
    rfl
  · have hleaves := (Builder.jump_leaves hs.ready).extends hf
    exact ⟨_, advances_of_leaves hm.place hleaves rfl,
      ⟨⟨targets, rest, hloops, rfl, rfl⟩, .refl⟩, hm.state.values.pop, hm.state.output⟩

end Statements

end Leveret.Code
