import Leveret.Proofs.Code.Simulation

/-!
# Branches and loops

The code for conditionals and loops, from the code for their parts.
-/

namespace Leveret.Code

open Lowering (State)

/-! ## Blocks and branches -/

/-- Where the code of a block ends. A jump out of it leaves the scopes around it in order. -/
def EndedBlock (s s' : State) (r : Option Operand) (m : Machine) :
    Completion → Eval.State → Machine → Prop
  | .value v, σ', m' => Ran s s' r m v σ' m'
  | .breaking, σ', m' => Jumped s (·.exit) m m' ∧ Corresponds s.scopes σ' m'
  | .continuing, σ', m' => Jumped s (·.header) m m' ∧ Corresponds s.scopes σ' m'

structure BlockCode (p : Program) (Γ : Chain Declaration) (task : Task)
    (run : Nat → Eval Completion) (ty : Option Ty) (s : State) (r : Option Operand) (s' : State) :
    Prop where
  grown : s.builder.Grown s'.builder
  scopes : s'.scopes = s.scopes
  isSome : r.isSome = ty.isSome
  below : ∀ o ∈ r, o.Below s'.builder.nextRegister
  simulates : ∀ (f : Function) limit σ m, Extends s'.builder.blocks f.blocks → Starts Γ s σ m →
    p.Meets limit task σ →
    Simulates f (p.Divides limit) limit m ((run limit).run σ) (EndedBlock s s' r m)

def Branch (p : Program) (Γ : Chain Declaration) (task : Task) (loops : List LoopTargets)
    (lower : Lowering Unit) (run : Nat → Eval Completion) : Prop :=
  ∀ s, Fits Γ s → s.builder.loops = loops → ∃ s', lower.run s = .ok () s' ∧
    BlockCode p Γ task run none s none s'

section Blocks

variable {p : Program} {Γ : Chain Declaration} {task : Task} {s s' : State}
  {loops : List LoopTargets}

theorem Simulates.modify {α : Type} {f : Function} {W : Int32 → Int32 → Prop} {bound : Nat}
    {m : Machine} {g : Unit → Eval α} {change : Eval.State → Eval.State} {σ : Eval.State}
    {post : α → Eval.State → Machine → Prop}
    (h : Simulates f W bound m ((g ()).run (change σ)) post) :
    Simulates f W bound m ((modify change >>= g).run σ) post := h

theorem inFrame_run {α : Type} {action : Lowering α} {a : α}
    (h : action.run { s with scopes := s.scopes.push } = .ok a s') :
    (Lowering.inFrame action).run s = .ok a { s' with scopes := s'.scopes.pop } := by
  change EStateM.run (tryFinally action (modify _)) { s with scopes := s.scopes.push } = _
  rw [run_tryFinally, h]
  rfl

theorem inFrame_code {Γ' : Chain Declaration} {list : List Stmt} {run : Nat → Eval Completion}
    {ty : Option Ty} {r : Option Operand} (span : Span)
    (hl : Lowered Γ' ty { s with scopes := s.scopes.push } r s')
    (hk : KeepsUp p Γ.push (.stmts list) run { s with scopes := s.scopes.push } r s') :
    BlockCode p Γ (.block ⟨span, list⟩) (fun limit => Eval.inFrame (run limit)) ty s r
      { s' with scopes := s'.scopes.pop } := by
  refine ⟨hl.grown, hl.outer, hl.isSome, hl.below, fun f limit σ m hf hm ⟨_, hb⟩ => ?_⟩
  have hm' : Starts Γ.push { s with scopes := s.scopes.push }
      { σ with scopes := σ.scopes.push } m :=
    ⟨hm.types.push, ⟨hm.state.values.push, hm.state.output⟩, hm.place⟩
  refine Simulates.modify (.tryFinally (fun _ => rfl) ?_)
  refine (hk f limit _ m hf hm' ⟨_, hb.inside⟩).mono fun c σ₁ m₁ hc => ?_
  cases c with
  | value v => exact ⟨⟨hc.state.values.pop, hc.state.output⟩, hc.place, hc.kept, hc.result⟩
  | breaking | continuing => exact ⟨⟨hc.1.place, hc.1.kept⟩, hc.2⟩

theorem BlockCode.branch {action : Lowering (Option Operand)} {run : Nat → Eval Completion}
    {ty : Option Ty} {r : Option Operand} (hrun : action.run s = .ok r s')
    (hc : BlockCode p Γ task run ty s r s') :
    (discard action).run s = .ok () s' ∧
      BlockCode p Γ task (fun limit => do return Eval.branchEnd (← run limit)) none s none
        s' := by
  constructor
  · change EStateM.run (Functor.discard action) s = _
    exact run_map_eq_ok.2 ⟨r, hrun, rfl⟩
  · refine ⟨hc.grown, hc.scopes, rfl, nofun, fun f limit σ m hf hm ht => ?_⟩
    refine (hc.simulates f limit σ m hf hm ht).bind fun c σ₁ m₁ hc => .here ?_
    cases c with
    | value v => exact ⟨hc.state, hc.place, hc.kept, trivial⟩
    | breaking | continuing => exact hc

theorem branch_nothing : Branch p Γ .pause loops (pure ()) fun _ => return .value none := by
  intro s hs _
  exact ⟨s, rfl, .refl hs.ready, rfl, rfl, nofun, fun f limit σ m _ hm _ =>
    .here ⟨hm.state, hm.place, .refl, trivial⟩⟩

/-- Where a piece of code ends that leads on to the block `join`. -/
def Joined (s : State) (r : Option Operand) (join : Nat) (m : Machine) :
    Completion → Eval.State → Machine → Prop
  | .value v, σ', m' => Begins join m' ∧ Corresponds s.scopes σ' m' ∧
      Keeps s.builder.nextRegister m m' ∧ Yields m' r v
  | .breaking, σ', m' => Jumped s (·.exit) m m' ∧ Corresponds s.scopes σ' m'
  | .continuing, σ', m' => Jumped s (·.header) m m' ∧ Corresponds s.scopes σ' m'

theorem BlockCode.joined {run : Nat → Eval Completion} {ty : Option Ty} {r : Option Operand}
    {f : Function} {limit join : Nat} {σ : Eval.State} {m : Machine}
    (hc : BlockCode p Γ task run ty s r s') (hf : Extends s'.builder.blocks f.blocks)
    (hl : s'.builder.Leaves (.br join) f.blocks) (hm : Starts Γ s σ m)
    (ht : p.Meets limit task σ) :
    Simulates f (p.Divides limit) limit m ((run limit).run σ) (Joined s r join m) := by
  refine (hc.simulates f limit σ m hf hm ht).extend fun c σ₁ m₁ h => ?_
  cases c with
  | breaking | continuing => exact ⟨0, m₁, .refl, h⟩
  | value v =>
    refine ⟨1, m₁.jump join, advances_of_leaves h.place hl rfl, ⟨rfl, rfl⟩,
      ⟨hc.scopes ▸ h.state.values, h.state.output⟩, h.kept, ?_⟩
    cases r <;> cases v <;> exact h.result

theorem Joined.ended {b : Builder} {m : Machine} {join target : Nat} {c : Completion}
    {σ' : Eval.State} {m' : Machine}
    (h : Joined { s with builder := b } none join (m.jump target) c σ' m')
    (hs : s'.scopes = s.scopes) (hloops : b.loops = s.builder.loops)
    (hn : s.builder.nextRegister ≤ b.nextRegister)
    (hat : ∀ m'', Begins join m'' → At s'.builder m'') : Ended s s' none m c σ' m' := by
  cases c with
  | value v =>
    obtain ⟨hb, hstate, hk, hv⟩ := h
    exact ⟨hs ▸ hstate, hat m' hb, hk.mono hn, hv⟩
  | breaking | continuing =>
    obtain ⟨⟨⟨targets, rest, hl, hb⟩, hk⟩, hstate⟩ := h
    exact ⟨⟨⟨targets, rest, hloops ▸ hl, hb⟩, hk.mono hn⟩, hstate.values.pop, hstate.output⟩

end Blocks

/-! ## Conditionals -/

section Conditionals

variable {p : Program} {Γ : Chain Declaration} {s s' : State}

theorem fork_run {α : Type} (x y z : String) (rest : Nat → Nat → Nat → Lowering α) (s : State) :
    (do
      let i ← Lowering.createBlock x
      let j ← Lowering.createBlock y
      let k ← Lowering.createBlock z
      rest i j k : Lowering α).run s =
    (rest s.builder.blocks.size (s.builder.blocks.size + 1) (s.builder.blocks.size + 2)).run
      { s with builder := s.builder.fork x y z } := by
  have hy := Builder.createBlock_size (b := s.builder) x
  have hz := Builder.createBlock_size (b := (s.builder.createBlock x).2) y
  rw [hy] at hz
  rw [← hy, ← hz]
  rfl

theorem fill_run {α : Type} {action : Lowering α} {block next : Nat} {a : α}
    (h : action.run { s with builder := s.builder.goTo block } = .ok a s') :
    (Lowering.fill block next action).run s =
      .ok () { s' with builder := s'.builder.terminate (.br next) } := by
  change EStateM.run (action >>= _) { s with builder := s.builder.goTo block } = _
  rw [run_bind_of_ok h]
  rfl

theorem ifElse_run {lower lower' : Lowering Unit} {o : Operand} {n : Nat} {s₁ s₂ : State}
    (hn : s.builder.blocks.size = n)
    (h₁ : lower.run { s with
      builder := s.builder.forkFirst "then" "else" "merge" (.condBr o n (n + 1)) } = .ok () s₁)
    (hl₁ : s₁.builder.loops = s.builder.loops) (hs₁ : s₁.scopes = s.scopes)
    (h₂ : lower'.run { s with
      builder := s.builder.forkSecond s₁.builder (.br (n + 2)) s.builder.loops } = .ok () s₂)
    (hl₂ : s₂.builder.loops = s.builder.loops) (hs₂ : s₂.scopes = s.scopes) :
    (Lowering.ifElse o lower lower').run s =
      .ok () { s with builder := s.builder.forkLast s₂.builder (.br (n + 2)) } := by
  subst hn
  let n := s.builder.blocks.size
  rw [Builder.forkSecond_eq hl₁, ← hs₁] at h₂
  rw [Lowering.ifElse, fork_run]
  change EStateM.run (Lowering.fill n (n + 2) lower >>= _)
    { s with builder := (s.builder.fork _ _ _).terminate _ } = _
  rw [run_bind_of_ok (fill_run h₁), Builder.forkLast_eq hl₂, ← hs₂]
  exact run_bind_of_ok (fill_run h₂)

theorem ifElse_code {task task' : Task} {lower lower' : Lowering Unit}
    {run run' : Nat → Eval Completion} {o : Operand} (hs : Fits Γ s)
    (ha : Branch p Γ task s.builder.loops lower run)
    (hb : Branch p Γ task' s.builder.loops lower' run') :
    ∃ s', (Lowering.ifElse o lower lower').run s = .ok () s' ∧ Lowered Γ none s none s' ∧
      ∀ (f : Function) limit σ m v, Extends s'.builder.blocks f.blocks → Starts Γ s σ m →
        m.value o = .ok (.bool v) → p.Meets limit (if v then task else task') σ →
        Simulates f (p.Divides limit) limit m (((if v then run else run') limit).run σ)
          (Ended s s' none m) := by
  let n := s.builder.blocks.size
  let b₀ := s.builder.forkFirst "then" "else" "merge" (.condBr o n (n + 1))
  have hg₀ : s.builder.Grown b₀ := Builder.forkFirst_grown hs.ready
  obtain ⟨s₁, hrun₁, hc₁⟩ := ha { s with builder := b₀ } (hs.grown hg₀) rfl
  let b₁ := s.builder.forkSecond s₁.builder (.br (n + 2)) s.builder.loops
  have hfits₁ : Fits Γ { s with builder := b₁ } :=
    hs.within (Builder.forkSecond_within hs.ready hc₁.grown)
      (Builder.forkSecond_ready hs.ready hc₁.grown)
  obtain ⟨s₂, hrun₂, hc₂⟩ := hb { s with builder := b₁ } hfits₁ rfl
  let b₂ := s.builder.forkLast s₂.builder (.br (n + 2))
  have hg : s.builder.Grown b₂ := Builder.forkLast_grown hs.ready hc₁.grown hc₂.grown
  refine ⟨{ s with builder := b₂ }, ?_, .valueless hg (hs.grown hg) rfl, ?_⟩
  · exact ifElse_run rfl hrun₁ hc₁.grown.loops hc₁.scopes hrun₂ hc₂.grown.loops hc₂.scopes
  · intro f limit σ m v hf hm hv ht
    obtain ⟨hl₀, hl₁, hl₂⟩ : s.builder.Leaves _ b₂.blocks ∧ s₁.builder.Leaves _ b₂.blocks ∧
        s₂.builder.Leaves _ b₂.blocks :=
      Builder.forkLast_leaves hs.ready hc₁.grown hc₂.grown
    obtain ⟨he₁, he₂⟩ : Extends s₁.builder.blocks b₂.blocks ∧ Extends s₂.builder.blocks b₂.blocks :=
      Builder.forkLast_extends hs.ready hc₁.grown hc₂.grown
    have hstep : m.terminator (.condBr o n (n + 1)) = .ok (m.jump (if v then n else n + 1)) := by
      rw [Machine.terminator, hv]
      rfl
    have hfresh : b₂.Fresh (n + 2) := Builder.forkLast_fresh hs.ready hc₁.grown hc₂.grown
    refine Simulates.leave hm.place (hl₀.extends hf) hstep ?_
    cases v with
    | true =>
      have hm₁ : Starts Γ { s with builder := b₀ } σ (m.jump n) :=
        ⟨hm.types, ⟨hm.state.values, hm.state.output⟩,
          at_fresh (Builder.forkFirst_fresh hs.ready (Nat.le_refl _)
            (Nat.lt_add_of_pos_right (by decide))) ⟨rfl, rfl⟩⟩
      refine (hc₁.joined (he₁.trans hf) (hl₁.extends hf) hm₁ ht).mono fun c σ' m' h => ?_
      exact h.ended rfl rfl hg₀.within.registers fun m'' hb => at_fresh hfresh hb
    | false =>
      have hm₁ : Starts Γ { s with builder := b₁ } σ (m.jump (n + 1)) :=
        ⟨hm.types, ⟨hm.state.values, hm.state.output⟩,
          at_fresh (Builder.forkSecond_fresh hs.ready hc₁.grown) ⟨rfl, rfl⟩⟩
      refine (hc₂.joined (he₂.trans hf) (hl₂.extends hf) hm₁ ht).mono fun c σ' m' h => ?_
      exact h.ended rfl rfl (Builder.forkSecond_within hs.ready hc₁.grown).registers
        fun m'' hb => at_fresh hfresh hb

end Conditionals

/-! ## Loops -/

section Loops

variable {p : Program} {Γ : Chain Declaration} {s s' : State}

/-- The passes of a loop, each of which is at least one step of the machine. -/
theorem loop_simulates {f : Function} {limit header inside exit n : Nat} {scopes : Chain Nat}
    {test : Expr} {body : Block} {condition : Eval Bool}
    (htest : ∀ σ m, Begins header m → Eval.Matches Γ σ → Corresponds scopes σ m →
      p.Meets limit (.expr test) σ →
      Simulates f (p.Divides limit) limit m (condition.run σ) fun v σ' m' =>
        (Eval.Matches Γ σ' ∧ (Eval.expr limit test).run σ = .ok (some (.bool v)) σ') ∧
        Corresponds scopes σ' m' ∧ Keeps n m m' ∧
        Advances f (p.Divides limit) 1 m' (m'.jump (if v then inside else exit)))
    (hbody : ∀ σ m, Begins inside m → Eval.Matches Γ σ → Corresponds scopes σ m →
      p.Meets limit (.block body) σ →
      Simulates f (p.Divides limit) limit m ((Eval.block limit body).run σ) fun c σ' m' =>
        Eval.Matches Γ σ' ∧ Corresponds scopes σ' m' ∧ Keeps n m m' ∧
        Begins (if c = .breaking then exit else header) m') :
    ∀ passes ≤ limit, ∀ σ m, Begins header m → Eval.Matches Γ σ → Corresponds scopes σ m →
      p.Meets limit (.loop test body passes) σ →
      Simulates f (p.Divides limit) passes m
        ((Eval.loop condition (Eval.block limit body) passes).run σ) fun _ σ' m' =>
          Begins exit m' ∧ Corresponds scopes σ' m' ∧ Keeps n m m' := by
  intro passes
  induction passes with
  | zero =>
    intro _ σ m _ _ hstate _
    exact ⟨0, m, Nat.le_refl _, rfl, hstate.output⟩
  | succ passes ih =>
    intro hp σ m hm hσ hstate ⟨Δ, ht⟩
    rw [Eval.loop]
    refine ((htest σ m hm hσ hstate ⟨Δ, ht.loopTest⟩).weaken hp).bind ?_
    rintro v σ₁ m₁ ⟨⟨hσ₁, hrun₁⟩, hstate₁, hk₁, hpath⟩
    have hjump : Corresponds scopes σ₁ (m₁.jump (if v then inside else exit)) :=
      ⟨hstate₁.values, hstate₁.output⟩
    -- The step that leaves the condition is the one that counts.
    rw [Nat.add_comm]
    refine Simulates.after hpath ?_
    cases v with
    | false => exact .here ⟨⟨rfl, rfl⟩, hjump, hk₁⟩
    | true =>
      refine ((hbody σ₁ _ ⟨rfl, rfl⟩ hσ₁ hjump ⟨Δ, ht.loopBody hrun₁⟩).and_run.weaken
        (Nat.le_of_succ_le hp)).bind ?_
      rintro c σ₂ m₂ ⟨⟨hσ₂, hstate₂, hk₂, hm₂⟩, hrun₂⟩
      have hk : Keeps n m m₂ := hk₁.trans hk₂
      cases c with
      | breaking => exact .here ⟨hm₂, hstate₂, hk⟩
      | value _ | continuing =>
        have ht₂ := ht.loopNext hrun₁ hrun₂ (by simp)
        refine (ih (Nat.le_of_succ_le hp) σ₂ m₂ hm₂ hσ₂ hstate₂ ⟨Δ, ht₂⟩).mono fun _ σ₃ m₃ h => ?_
        exact ⟨h.1, h.2.1, hk.trans h.2.2⟩

theorem inLoop_run {α : Type} {action : Lowering α} {targets : LoopTargets} {a : α}
    (h : action.run { s with builder := { s.builder with loops := targets :: s.builder.loops } } =
      .ok a s') :
    (Lowering.inLoop targets action).run s =
      .ok a { s' with builder := { s'.builder with loops := s'.builder.loops.tail } } := by
  change EStateM.run (tryFinally action (modify _))
    { s with builder := { s.builder with loops := targets :: s.builder.loops } } = _
  rw [run_tryFinally, h]
  rfl

theorem whileLoop_run {lower : Lowering Operand} {lower' : Lowering Unit} {o : Operand} {n : Nat}
    {s₁ s₂ : State} (hn : s.builder.blocks.size = n)
    (h₁ : lower.run { s with builder := s.builder.forkFirst "header" "body" "exit" (.br n) } =
      .ok o s₁)
    (hl₁ : s₁.builder.loops = s.builder.loops) (hs₁ : s₁.scopes = s.scopes)
    (h₂ : lower'.run { s with
      builder := s.builder.forkSecond s₁.builder (.condBr o (n + 1) (n + 2))
        (⟨n, n + 2⟩ :: s.builder.loops) } = .ok () s₂)
    (hl₂ : s₂.builder.loops = ⟨n, n + 2⟩ :: s.builder.loops) (hs₂ : s₂.scopes = s.scopes) :
    (Lowering.whileLoop lower lower').run s =
      .ok () { s with builder := s.builder.forkLast s₂.builder (.br n) } := by
  subst hn
  let n := s.builder.blocks.size
  have hlast : s.builder.forkLast s₂.builder (.br n) =
      ({ s₂.builder with loops := s₂.builder.loops.tail }.terminate (.br n)).goTo (n + 2) := by
    rw [hl₂]
    rfl
  rw [← hl₁, ← hs₁] at h₂
  rw [Lowering.whileLoop, fork_run]
  change EStateM.run (lower >>= _) { s with builder := s.builder.forkFirst _ _ _ (.br n) } = _
  rw [run_bind_of_ok h₁, hlast, ← hs₂]
  change EStateM.run (Lowering.fill (n + 1) n (Lowering.inLoop ⟨n, n + 2⟩ lower') >>= _)
    { s₁ with builder := s₁.builder.terminate (.condBr o (n + 1) (n + 2)) } = _
  exact run_bind_of_ok (fill_run (inLoop_run h₂))

theorem OperandCode.tests {e : Expr} {o : Operand} {f : Function} {limit inside exit : Nat}
    {σ : Eval.State} {m : Machine} (hc : OperandCode p Γ e .bool s o s')
    (hf : Extends s'.builder.blocks f.blocks)
    (hl : s'.builder.Leaves (.condBr o inside exit) f.blocks)
    (hfresh : s.builder.Fresh s.builder.current) (hm : Begins s.builder.current m)
    (hσ : Eval.Matches Γ σ) (hstate : Corresponds s.scopes σ m) (ht : p.Meets limit (.expr e) σ) :
    Simulates f (p.Divides limit) limit m
      ((do
        let v ← Eval.expr limit e >>= Eval.require e.position
        Eval.truth e.position v : Eval Bool).run σ) fun v σ' m' =>
      (Eval.Matches Γ σ' ∧ (Eval.expr limit e).run σ = .ok (some (.bool v)) σ') ∧
      Corresponds s.scopes σ' m' ∧ Keeps s.builder.nextRegister m m' ∧
      Advances f (p.Divides limit) 1 m' (m'.jump (if v then inside else exit)) := by
  refine (hc.simulates f limit σ m hf ⟨hσ, hstate, at_fresh hfresh hm⟩ ht).bind ?_
  rintro v σ' m' ⟨⟨hv, hrun⟩, hm', hk, ho⟩
  cases v with
  | int _ | float _ => cases hv
  | bool b =>
    refine .here ⟨⟨hm'.types, hrun⟩, hc.scopes ▸ hm'.state, hk, ?_⟩
    refine advances_of_leaves hm'.place hl ?_
    rw [Machine.terminator, ho]
    rfl

theorem BlockCode.passes {body : Block} {ty : Option Ty} {r : Option Operand} {f : Function}
    {limit : Nat} {targets : LoopTargets} {rest : List LoopTargets} {σ : Eval.State}
    {m : Machine} (hc : BlockCode p Γ (.block body) (Eval.block · body) ty s r s')
    (hloops : s.builder.loops = targets :: rest)
    (hsafe : Eval.Safe (Eval.block limit body) σ fun _ σ' => Eval.Matches Γ σ')
    (hf : Extends s'.builder.blocks f.blocks) (hl : s'.builder.Leaves (.br targets.header) f.blocks)
    (hfresh : s.builder.Fresh s.builder.current) (hm : Begins s.builder.current m)
    (hσ : Eval.Matches Γ σ) (hstate : Corresponds s.scopes σ m)
    (ht : p.Meets limit (.block body) σ) :
    Simulates f (p.Divides limit) limit m ((Eval.block limit body).run σ) fun c σ' m' =>
      Eval.Matches Γ σ' ∧ Corresponds s.scopes σ' m' ∧ Keeps s.builder.nextRegister m m' ∧
      Begins (if c = .breaking then targets.exit else targets.header) m' := by
  refine ((hc.joined hf hl ⟨hσ, hstate, at_fresh hfresh hm⟩ ht).and_safe hsafe).mono ?_
  rintro c σ' m' ⟨h, hσ'⟩
  cases c with
  | value v =>
    obtain ⟨hb, hstate', hk, -⟩ := h
    exact ⟨hσ', hstate', hk, hb⟩
  | breaking | continuing =>
    obtain ⟨⟨⟨targets', rest', hloops', hb⟩, hk⟩, hstate'⟩ := h
    rw [hloops] at hloops'
    cases hloops'
    exact ⟨hσ', hstate', hk, hb⟩

theorem whileLoop_code {node : Node} {test : Expr} {body : Block} {lower : Lowering Operand}
    {lower' : Lowering Unit} {ty : Option Ty} (hs : Fits Γ s)
    (hcond : ∀ s, Fits Γ s → ∃ o s', lower.run s = .ok o s' ∧ OperandCode p Γ test .bool s o s')
    (hbody : ∀ s, Fits Γ s → s.builder.loops ≠ [] → ∃ r s', lower'.run s = .ok () s' ∧
      BlockCode p Γ (.block body) (Eval.block · body) ty s r s')
    (hsafe : ∀ limit σ, Eval.Matches Γ σ →
      Eval.Safe (Eval.block limit body) σ fun _ σ' => Eval.Matches Γ σ') :
    ∃ s', (Lowering.whileLoop lower lower').run s = .ok () s' ∧ Lowered Γ none s none s' ∧
      KeepsUp p Γ (.stmt (.whileLoop node test body)) (fun limit => do
        Eval.loop (do
          let v ← Eval.expr limit test >>= Eval.require test.position
          Eval.truth test.position v) (Eval.block limit body) limit
        return .value none) s none s' := by
  let n := s.builder.blocks.size
  let targets : LoopTargets := ⟨n, n + 2⟩
  let b₀ := s.builder.forkFirst "header" "body" "exit" (.br n)
  have hg₀ : s.builder.Grown b₀ := Builder.forkFirst_grown hs.ready
  obtain ⟨o, s₁, hrun₁, hc₁⟩ := hcond { s with builder := b₀ } (hs.grown hg₀)
  let b₁ := s.builder.forkSecond s₁.builder (.condBr o (n + 1) (n + 2)) (targets :: s.builder.loops)
  have hfits₁ : Fits Γ { s with builder := b₁ } :=
    hs.within (Builder.forkSecond_within hs.ready hc₁.grown)
      (Builder.forkSecond_ready hs.ready hc₁.grown)
  obtain ⟨r, s₂, hrun₂, hc₂⟩ := hbody { s with builder := b₁ } hfits₁ nofun
  let b₂ := s.builder.forkLast s₂.builder (.br n)
  have hg : s.builder.Grown b₂ := Builder.forkLast_grown hs.ready hc₁.grown hc₂.grown
  refine ⟨{ s with builder := b₂ }, ?_, .valueless hg (hs.grown hg) rfl, ?_⟩
  · exact whileLoop_run rfl hrun₁ hc₁.grown.loops hc₁.scopes hrun₂ hc₂.grown.loops hc₂.scopes
  · intro f limit σ m hf hm ⟨Δ, hloop⟩
    obtain ⟨hl₀, hl₁, hl₂⟩ : s.builder.Leaves _ b₂.blocks ∧ s₁.builder.Leaves _ b₂.blocks ∧
        s₂.builder.Leaves _ b₂.blocks :=
      Builder.forkLast_leaves hs.ready hc₁.grown hc₂.grown
    obtain ⟨he₁, he₂⟩ : Extends s₁.builder.blocks b₂.blocks ∧ Extends s₂.builder.blocks b₂.blocks :=
      Builder.forkLast_extends hs.ready hc₁.grown hc₂.grown
    have hfresh : b₂.Fresh (n + 2) := Builder.forkLast_fresh hs.ready hc₁.grown hc₂.grown
    have hheader : b₀.Fresh n := Builder.forkFirst_fresh hs.ready (Nat.le_refl _)
      (Nat.lt_add_of_pos_right (by decide))
    have hinside : b₁.Fresh (n + 1) := Builder.forkSecond_fresh hs.ready hc₁.grown
    have hn : s.builder.nextRegister ≤ b₁.nextRegister :=
      (Builder.forkSecond_within hs.ready hc₁.grown).registers
    refine Simulates.leave hm.place (hl₀.extends hf) rfl ?_
    refine (loop_simulates (n := s.builder.nextRegister)
      (fun σ m hb hσ hst ht => hc₁.tests (he₁.trans hf) (hl₁.extends hf) hheader hb hσ hst ht)
      (fun σ m hb hσ hst ht => (hc₂.passes rfl (hsafe limit σ hσ) (he₂.trans hf)
        (hl₂.extends hf) hinside hb hσ hst ht).mono fun c σ' m' ⟨hσ', hst', hk, hb'⟩ =>
          ⟨hσ', hst', hk.mono hn, hb'⟩)
      limit (Nat.le_refl _) σ (m.jump n) ⟨rfl, rfl⟩ hm.types
      ⟨hm.state.values, hm.state.output⟩ ⟨Δ, hloop.whileLoop⟩).bind ?_
    rintro _ σ' m' ⟨hb, hst, hk⟩
    exact .here ⟨hst, at_fresh hfresh hb, hk, trivial⟩

end Loops

end Leveret.Code
