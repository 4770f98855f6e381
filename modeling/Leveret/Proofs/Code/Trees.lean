import Leveret.Proofs.Code.Control

/-!
# The code of whole trees

Every well-typed tree has code with which the machine keeps up with the evaluator.
-/

namespace Leveret.Code

open Lowering (State)

section Sequences

variable {p : Program} {Γ Γ' : Chain Declaration} {task task' : Task} {s s' s'' : State}
  {r : Option Operand} {ty : Option Ty}

theorem Ended.of_kept {m m₁ m' : Machine} {c : Completion} {σ' : Eval.State}
    (h : Ended s' s'' r m₁ c σ' m') (hk : Keeps s.builder.nextRegister m m₁)
    (hg : s.builder.Grown s'.builder) (hpop : s'.scopes.pop = s.scopes.pop) :
    Ended s s'' r m c σ' m' := by
  cases c with
  | value v => exact Ran.of_kept h hk hg.within.registers
  | breaking | continuing =>
    obtain ⟨⟨⟨targets, rest, hl, hb⟩, hk'⟩, hst⟩ := h
    exact ⟨⟨⟨targets, rest, hg.loops ▸ hl, hb⟩, hk.trans (hk'.mono hg.within.registers)⟩,
      hpop ▸ hst⟩

theorem KeepsUp.congr {run run' : Nat → Eval Completion} (h : KeepsUp p Γ task run s r s')
    (hrun : ∀ limit, run' limit = run limit) : KeepsUp p Γ task run' s r s' := by
  obtain rfl : run' = run := funext hrun
  exact h

theorem Lowered.after (h : Lowered Γ' ty s' r s'') (hg : s.builder.Grown s'.builder)
    (hpop : s'.scopes.pop = s.scopes.pop) : Lowered Γ' ty s r s'' :=
  ⟨hg.trans h.grown, h.fits, h.outer.trans hpop, h.isSome, h.below⟩

theorem ExprCode.keepsUp {e : Expr} {node : Node} (h : ExprCode p Γ e ty s r s')
    (hs : Fits Γ s) : Lowered Γ ty s r s' ∧
      KeepsUp p Γ (.stmt (.expr node e)) (Eval.stmt · (.expr node e)) s r s' := by
  refine ⟨⟨h.grown, hs.of_code h.grown h.scopes, congrArg Chain.pop h.scopes, h.isSome, h.below⟩,
    ?_⟩
  intro f limit σ m hf hm ⟨_, ht⟩
  dsimp only
  rw [Eval.stmt]
  exact (h.simulates f limit σ m hf hm ⟨_, ht.evaluated⟩).bind fun v σ₁ m₁ hran => .here hran

theorem BlockCode.compound {b : Block} {node : Node} {P : Nat → Ty → Prop}
    (hb : b.HasType P false Γ ty) (h : BlockCode p Γ (.block b) (Eval.block · b) ty s r s') :
    ExprCode p Γ (.compound node b) ty s r s' := by
  refine ⟨h.grown, h.scopes, h.isSome, h.below, fun f limit σ m hf hm ⟨_, ht⟩ => ?_⟩
  rw [Eval.expr]
  refine ((h.simulates f limit σ m hf hm ⟨_, ht.compound⟩).and_safe
    (Eval.block_safe hb limit σ hm.types)).bind ?_
  rintro c σ₁ m₁ ⟨hran, hends⟩
  cases c with
  | value v => exact .here hran
  | breaking | continuing => cases hends.2

theorem branch_block {types : Annotations} {b : Block} {loops : List LoopTargets}
    (h : ∀ s, Fits Γ s → s.builder.loops = loops → ∃ r s',
      (Lowering.block types b).run s = .ok r s' ∧
      BlockCode p Γ (.block b) (Eval.block · b) ty s r s') :
    Branch p Γ (.block b) loops (discard (Lowering.block types b))
      fun limit => do return Eval.branchEnd (← Eval.block limit b) := by
  intro s hs hl
  obtain ⟨r, s', hrun, hc⟩ := h s hs hl
  exact ⟨s', hc.branch hrun⟩

theorem conditional_keepsUp {node : Node} {e : Expr} {b : Block} {b' : Option Block}
    {o : Operand} {run run' : Nat → Eval Completion} (hc : OperandCode p Γ e .bool s o s')
    (hg : s'.builder.Grown s''.builder)
    (hk : ∀ (f : Function) limit σ m v, Extends s''.builder.blocks f.blocks → Starts Γ s' σ m →
      m.value o = .ok (.bool v) → p.Meets limit (if v then task else task') σ →
      Simulates f (p.Divides limit) limit m (((if v then run else run') limit).run σ)
        (Ended s' s'' none m))
    (hmeets : ∀ limit σ σ' v, p.Meets limit (.stmt (.ifElse node e b b')) σ →
      (Eval.expr limit e).run σ = .ok (some (.bool v)) σ' →
      p.Meets limit (if v then task else task') σ') :
    KeepsUp p Γ (.stmt (.ifElse node e b b')) (fun limit => do
      let v ← Eval.require e.position (← Eval.expr limit e)
      if ← Eval.truth e.position v then run limit else run' limit) s none s'' := by
  intro f limit σ m hf hm ht
  dsimp only
  rw [← bind_assoc]
  refine (hc.simulates f limit σ m (hg.within.blocks.trans hf) hm
    (ht.imp fun _ => .tested)).bind ?_
  rintro v σ₁ m₁ ⟨⟨hv, hrun⟩, hm₁, hkept, ho⟩
  cases v with
  | int _ | float _ => cases hv
  | bool b =>
    have hsim := hk f limit σ₁ m₁ b hf hm₁ ho (hmeets limit σ σ₁ b ht hrun)
    have hrun : (do if ← Eval.truth e.position (.bool b) then run limit else run' limit :
        Eval Completion).run σ₁ = ((if b then run else run') limit).run σ₁ := by
      cases b <;> rfl
    rw [hrun]
    exact hsim.mono fun c σ' m' h => h.of_kept hkept hc.grown (congrArg Chain.pop hc.scopes)

end Sequences

mutual

theorem expr_code (p : Program) {types Γ e ty} :
    Expr.HasType (Annotations.Notes types) Γ e ty → ∀ s, Fits Γ s →
    ∃ r s', (Lowering.expr types e).run s = .ok r s' ∧ ExprCode p Γ e ty s r s'
  | .literal _, s, hs => by
    refine ⟨_, s, ?_, literal_code _ _ hs⟩
    rw [Lowering.expr]
    rfl
  | .unary h hop hn, s, hs => by
    obtain ⟨o, s₁, hrun, ho, -⟩ := operand_code hs h (expr_code p h s hs)
    exact unary_code hop hn hrun ho
  | .binary h h' hop _, s, hs => by
    obtain ⟨o, s₁, hrun, ho, hs₁⟩ := operand_code hs h (expr_code p h s hs)
    obtain ⟨o', s₂, hrun', ho', -⟩ := operand_code hs₁ h' (expr_code p h' s₁ hs₁)
    exact binary_code hop h.noted hrun ho hrun' ho'
  | .load hf _, s, hs => load_code hs hf
  | .compound h _, s, hs => by
    obtain ⟨r, s₁, hrun, hc⟩ := block_code p h s hs nofun
    refine ⟨r, s₁, ?_, hc.compound h⟩
    rw [Lowering.expr, hrun]

theorem block_code (p : Program) {types inLoop Γ b ty} :
    Block.HasType (Annotations.Notes types) inLoop Γ b ty →
    ∀ s, Fits Γ s → (inLoop = true → s.builder.loops ≠ []) →
    ∃ r s', (Lowering.block types b).run s = .ok r s' ∧
      BlockCode p Γ (.block b) (Eval.block · b) ty s r s'
  | @Block.HasType.intro _ _ _ span _ _ _ h, s, hs, hl => by
    obtain ⟨r, s₁, hrun, hlow, hk⟩ := stmts_code p h _ none hs.push hl rfl nofun
    refine ⟨r, { s₁ with scopes := s₁.scopes.pop }, ?_, ?_⟩
    · rw [Lowering.block]
      exact inFrame_run hrun
    · have hc := inFrame_code span hlow fun f limit σ m hf hm ht =>
        hk f limit σ m none hf hm trivial (.inl ht)
      refine { hc with simulates := fun f limit σ m hf hm ht => ?_ }
      rw [Eval.block]
      exact hc.simulates f limit σ m hf hm ht

theorem stmt_code (p : Program) {types inLoop Γ Γ' t ty} :
    Stmt.WellTyped (Annotations.Notes types) inLoop Γ t Γ' ty →
    ∀ s, Fits Γ s → (inLoop = true → s.builder.loops ≠ []) →
    ∃ r s', (Lowering.stmt types t).run s = .ok r s' ∧ Lowered Γ' ty s r s' ∧
      KeepsUp p Γ (.stmt t) (Eval.stmt · t) s r s'
  | .declareZero hn ha, s, hs, _ => by
    obtain ⟨s', hrun, hlow, hfin⟩ := declare_code hs ha
    refine ⟨none, s', ?_, hlow, fun f limit σ m hf hm _ => ?_⟩
    · rw [Lowering.stmt, run_bind_of_ok (typeOf_run hn), run_bind_of_ok hrun]
      rfl
    · dsimp only
      rw [Eval.stmt]
      refine (hfin f (p.Divides limit) limit σ m _ hf hm (Value.ty_zero _) rfl).mono ?_
      rintro c σ' m' ⟨hc, hran⟩
      subst hc
      exact hran
  | .declareVar h _ hn ha, s, hs, _ | .declareConst h _ hn ha, s, hs, _ => by
    obtain ⟨o, s₁, hrun, ho, hs₁⟩ := operand_code hs h (expr_code p h s hs)
    obtain ⟨s', hrun', hlow, hfin⟩ := declare_code hs₁ ha
    refine ⟨none, s', ?_, hlow.after ho.grown (congrArg Chain.pop ho.scopes), ?_⟩
    · rw [Lowering.stmt, run_bind_of_ok (typeOf_run hn), run_bind_of_ok hrun,
        run_bind_of_ok require_run, run_bind_of_ok hrun']
      rfl
    · refine (hfin.keepsUp hlow.grown ho fun limit σ ht => ?_).congr fun limit => by rw [Eval.stmt]
      exact ht.imp fun _ ht => by first | exact ht.varInit | exact ht.constInit
  | .assign h hf, s, hs, _ => by
    obtain ⟨o, s₁, hrun, ho, hs₁⟩ := operand_code hs h (expr_code p h s hs)
    obtain ⟨s', hrun', hlow, hfin⟩ := assign_code hs₁ hf
    refine ⟨none, s', ?_, hlow.after ho.grown (congrArg Chain.pop ho.scopes), ?_⟩
    · rw [Lowering.stmt, run_bind_of_ok hrun, run_bind_of_ok require_run, run_bind_of_ok hrun']
      rfl
    · refine (hfin.keepsUp hlow.grown ho fun limit σ ht => ?_).congr fun limit => by rw [Eval.stmt]
      exact ht.imp fun _ => .assigned
  | .print h, s, hs, _ => by
    obtain ⟨o, s₁, hrun, ho, hs₁⟩ := operand_code hs h (expr_code p h s hs)
    obtain ⟨s', hrun', hlow, hfin⟩ := print_code hs₁
    refine ⟨none, s', ?_, hlow.after ho.grown (congrArg Chain.pop ho.scopes), ?_⟩
    · rw [Lowering.stmt, run_bind_of_ok (typeOf_run h.noted), run_bind_of_ok hrun,
        run_bind_of_ok require_run, run_bind_of_ok hrun']
      rfl
    · refine (hfin.keepsUp hlow.grown ho fun limit σ ht => ?_).congr fun limit => by rw [Eval.stmt]
      exact ht.imp fun _ => .printed
  | .ifOnly h hb, s, hs, hl => by
    obtain ⟨o, s₁, hrun, ho, hs₁⟩ := operand_code hs h (expr_code p h s hs)
    have hl₁ := fun h => ho.grown.loops ▸ hl h
    obtain ⟨s', hrun', hlow, hk⟩ := ifElse_code hs₁
      (branch_block fun s hs hl => block_code p hb s hs fun h => hl ▸ hl₁ h) branch_nothing
    refine ⟨none, s', ?_, hlow.after ho.grown (congrArg Chain.pop ho.scopes), ?_⟩
    · rw [Lowering.stmt, run_bind_of_ok hrun, run_bind_of_ok require_run, run_bind_of_ok hrun']
      rfl
    · refine (conditional_keepsUp ho hlow.grown hk ?_).congr fun limit => by rw [Eval.stmt]
      rintro limit σ σ' v ⟨Δ, ht⟩ hv
      cases v with
      | true => exact ⟨Δ, ht.consequence hv⟩
      | false => exact ⟨Δ, ht.tested.exprDone hv⟩
  | .ifElse h hb hb', s, hs, hl => by
    obtain ⟨o, s₁, hrun, ho, hs₁⟩ := operand_code hs h (expr_code p h s hs)
    have hl₁ := fun h => ho.grown.loops ▸ hl h
    obtain ⟨s', hrun', hlow, hk⟩ := ifElse_code hs₁
      (branch_block fun s hs hl => block_code p hb s hs fun h => hl ▸ hl₁ h)
      (branch_block fun s hs hl => block_code p hb' s hs fun h => hl ▸ hl₁ h)
    refine ⟨none, s', ?_, hlow.after ho.grown (congrArg Chain.pop ho.scopes), ?_⟩
    · rw [Lowering.stmt, run_bind_of_ok hrun, run_bind_of_ok require_run, run_bind_of_ok hrun']
      rfl
    · refine (conditional_keepsUp ho hlow.grown hk ?_).congr fun limit => by rw [Eval.stmt]
      rintro limit σ σ' v ⟨Δ, ht⟩ hv
      cases v with
      | true => exact ⟨Δ, ht.consequence hv⟩
      | false => exact ⟨Δ, ht.alternative hv⟩
  | @Stmt.WellTyped.whileLoop _ _ _ _ test body ty h hb, s, hs, _ => by
    have hcond : ∀ s, Fits Γ s → ∃ o s',
        (do Lowering.require test.position (← Lowering.expr types test) : Lowering Operand).run s =
          .ok o s' ∧
        OperandCode p Γ test .bool s o s' := by
      intro s hs
      obtain ⟨o, s₁, hrun, ho, -⟩ := operand_code hs h (expr_code p h s hs)
      exact ⟨o, s₁, (run_bind_of_ok hrun).trans require_run, ho⟩
    have hbody : ∀ s, Fits Γ s → s.builder.loops ≠ [] → ∃ r s',
        (discard (Lowering.block types body)).run s = .ok () s' ∧
        BlockCode p Γ (.block body) (Eval.block · body) ty s r s' := by
      intro s hs hl
      obtain ⟨r, s₁, hrun, hc⟩ := block_code p hb s hs fun _ => hl
      exact ⟨r, s₁, (hc.branch hrun).1, hc⟩
    obtain ⟨s', hrun, hlow, hk⟩ := whileLoop_code hs hcond hbody
      fun limit σ hσ => (Eval.block_safe hb limit σ hσ).mono fun _ _ h => h.1
    refine ⟨none, s', ?_, hlow, ?_⟩
    · rw [Lowering.stmt, run_bind_of_ok hrun]
      rfl
    · exact hk.congr fun limit => by rw [Eval.stmt, bind_assoc]
  | .breakLoop, s, hs, hl => by
    obtain ⟨s', hrun, hlow, hjump⟩ := jump_code (·.exit) hs (hl rfl)
    refine ⟨none, s', ?_, hlow, fun f limit σ m hf hm _ => ?_⟩
    · rw [Lowering.stmt, run_bind_of_ok hrun]
      rfl
    · dsimp only
      rw [Eval.stmt]
      obtain ⟨m', hpath, hj⟩ := hjump f _ σ m hf hm
      exact ⟨1, m', hpath, hj⟩
  | .continueLoop, s, hs, hl => by
    obtain ⟨s', hrun, hlow, hjump⟩ := jump_code (·.header) hs (hl rfl)
    refine ⟨none, s', ?_, hlow, fun f limit σ m hf hm _ => ?_⟩
    · rw [Lowering.stmt, run_bind_of_ok hrun]
      rfl
    · dsimp only
      rw [Eval.stmt]
      obtain ⟨m', hpath, hj⟩ := hjump f _ σ m hf hm
      exact ⟨1, m', hpath, hj⟩
  | .expr h, s, hs, _ => by
    obtain ⟨r, s', hrun, hc⟩ := expr_code p h s hs
    refine ⟨r, s', ?_, hc.keepsUp hs⟩
    rw [Lowering.stmt, hrun]

theorem stmts_code (p : Program) {types inLoop Γ Γ' last list ty} :
    Sequence (Annotations.Notes types) inLoop Γ last list Γ' ty →
    ∀ s (r₀ : Option Operand), Fits Γ s → (inLoop = true → s.builder.loops ≠ []) →
    r₀.isSome = last.isSome → (∀ o ∈ r₀, o.Below s.builder.nextRegister) →
    ∃ r s', (Lowering.stmts types r₀ list).run s = .ok r s' ∧ Lowered Γ' ty s r s' ∧
      ∀ (f : Function) limit σ m v, Extends s'.builder.blocks f.blocks → Starts Γ s σ m →
        Yields m r₀ v → p.MeetsRow limit list σ →
        Simulates f (p.Divides limit) limit m ((Eval.stmts limit v list).run σ) (Ended s s' r m)
  | .nil, s, r₀, hs, _, hr, hb => by
    refine ⟨r₀, s, ?_, ⟨.refl hs.ready, hs, rfl, hr, hb⟩, fun f limit σ m v _ hm hv _ => ?_⟩
    · rw [Lowering.stmts]
      rfl
    · rw [Eval.stmts]
      exact .here ⟨hm.state, hm.place, .refl, hv⟩
  | .cons h hrest, s, r₀, hs, hl, _, _ => by
    obtain ⟨r₁, s₁, hrun₁, hlow₁, hk₁⟩ := stmt_code p h s hs hl
    obtain ⟨r, s', hrun, hlow, hk⟩ := stmts_code p hrest s₁ r₁ hlow₁.fits
      (fun h => hlow₁.grown.loops ▸ hl h) hlow₁.isSome hlow₁.below
    refine ⟨r, s', ?_, hlow.after hlow₁.grown hlow₁.outer, fun f limit σ m v hf hm _ ht => ?_⟩
    · rw [Lowering.stmts, run_bind_of_ok hrun₁, hrun]
    · rw [Eval.stmts]
      refine ((hk₁ f limit σ m (hlow.grown.within.blocks.trans hf) hm ht.first).and_run.and_safe
        (Eval.stmt_safe h limit σ hm.types)).bind ?_
      rintro c σ₁ m₁ ⟨⟨hc, hrun₁⟩, hends⟩
      cases c with
      | value v =>
        have hm₁ : Starts _ s₁ σ₁ m₁ := ⟨hends.2, hc.state, hc.place⟩
        exact (hk f limit σ₁ m₁ v hf hm₁ hc.result (ht.next hrun₁)).mono fun c σ' m' h =>
          h.of_kept hc.kept hlow₁.grown hlow₁.outer
      | breaking | continuing => exact .here hc

end

end Leveret.Code
