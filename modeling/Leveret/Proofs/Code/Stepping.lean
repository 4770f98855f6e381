import Leveret.Code.Machine
import Leveret.Eval.Basic
import Leveret.Proofs.Code.Building
import Leveret.Proofs.Steps
import Leveret.Proofs.Running.Safety

/-!
# Running block code

What the machine does at the end of the code built so far, and when its run keeps up with a run
of the evaluator.
-/

namespace Leveret.Code

namespace Machine

variable {f : Function} {m m' : Machine} {k n : Nat}

/-! ## Steps in a row -/

theorem run_succ_of_ok (h : m.step f = .ok m') : run f (n + 1) m = run f n m' := by
  rw [run, h]

theorem run_one_of_error {stop : Stop} (h : m.step f = .error stop) :
    run f 1 m = (m, some stop) := by
  rw [run, h]

theorem run_add (h : run f k m = (m', none)) (n : Nat) : run f (k + n) m = run f n m' := by
  induction k generalizing m with
  | zero =>
    cases h
    rw [Nat.zero_add]
  | succ k ih =>
    rw [run] at h
    cases hs : m.step f with
    | ok next =>
      rw [hs] at h
      rw [Nat.add_right_comm, run_succ_of_ok hs]
      exact ih h
    | error stop =>
      rw [hs] at h
      cases h

theorem instruction_output {i : Instruction} (h : m.instruction i = .ok m') :
    m.output.toList <+: m'.output.toList := by
  cases i with
  | load dest slot ty =>
    rw [instruction] at h
    split at h
    · cases h
      exact List.prefix_refl _
    · cases h
  | store slot ty value =>
    obtain ⟨v, -, h⟩ := bind_eq_ok.1 h
    cases h
    exact List.prefix_refl _
  | binary dest op ty left right | icmp dest predicate ty left right
  | fcmp dest predicate left right =>
    obtain ⟨a, -, h⟩ := bind_eq_ok.1 h
    obtain ⟨b, -, h⟩ := bind_eq_ok.1 h
    obtain ⟨v, -, h⟩ := bind_eq_ok.1 h
    cases h
    exact List.prefix_refl _
  | neg dest ty operand =>
    obtain ⟨a, -, h⟩ := bind_eq_ok.1 h
    obtain ⟨v, -, h⟩ := bind_eq_ok.1 h
    cases h
    exact List.prefix_refl _
  | call callee args =>
    rw [instruction] at h
    unfold call at h
    split at h
    · obtain ⟨v, -, h⟩ := bind_eq_ok.1 h
      split at h
      · cases h
        rw [Array.toList_push]
        exact List.prefix_append _ _
      · cases h
    · cases h

theorem terminator_output {t : Terminator} (h : m.terminator t = .ok m') :
    m'.output = m.output := by
  cases t with
  | br target =>
    cases h
    rfl
  | condBr condition onTrue onFalse =>
    obtain ⟨v, -, h⟩ := bind_eq_ok.1 h
    split at h
    · cases h
      rfl
    · cases h
  | ret operand =>
    obtain ⟨v, -, h⟩ := bind_eq_ok.1 h
    cases h

theorem step_output (h : m.step f = .ok m') : m.output.toList <+: m'.output.toList := by
  rw [step] at h
  split at h
  · cases h
  · split at h
    · exact instruction_output h
    · have ho := terminator_output h
      exact ho ▸ List.prefix_refl _
    · cases h

theorem run_output (f : Function) (n : Nat) (m : Machine) :
    m.output.toList <+: (run f n m).1.output.toList := by
  induction n generalizing m with
  | zero => exact List.prefix_refl _
  | succ n ih =>
    rw [run]
    cases h : m.step f with
    | ok next => exact (step_output h).trans (ih next)
    | error stop => exact List.prefix_refl _

theorem run_of_le (h : run f k m = (m', none)) (hn : n ≤ k) :
    (run f n m).2 = none ∧ (run f n m).1.output.toList <+: m'.output.toList := by
  induction n generalizing k m with
  | zero =>
    have hp := run_output f k m
    rw [h] at hp
    exact ⟨rfl, hp⟩
  | succ n ih =>
    obtain ⟨k, rfl⟩ : ∃ j, k = j + 1 := ⟨k - 1, by omega⟩
    rw [run] at h ⊢
    cases hs : m.step f with
    | ok next =>
      rw [hs] at h
      exact ih h (by omega)
    | error stop =>
      rw [hs] at h
      cases h

end Machine

/-! ## Divisions on the way -/

/-- The instruction divides the whole number `a` by `b` if the machine does it now. -/
def Instruction.Divides (m : Machine) (a b : Int32) : Instruction → Prop
  | .binary _ .sdiv _ x y => m.value x = .ok (.int a) ∧ m.value y = .ok (.int b)
  | _ => False

theorem Instruction.Divides.eq_binary {m : Machine} {a b : Int32} {i : Instruction}
    (h : i.Divides m a b) : ∃ dest ty x y, i = .binary dest .sdiv ty x y := by
  cases i with
  | binary dest op ty x y => cases op <;> first | exact ⟨_, _, _, _, rfl⟩ | cases h
  | _ => cases h

def Machine.Divides (f : Function) (m : Machine) (a b : Int32) : Prop :=
  ∃ block i, f.blocks[m.block]? = some block ∧ block.instructions[m.index]? = some i ∧
    i.Divides m a b

/-- The machine comes to another place in `k` steps, and on its way divides only what `W` allows. -/
inductive Advances (f : Function) (W : Int32 → Int32 → Prop) : Nat → Machine → Machine → Prop
  | refl {m} : Advances f W 0 m m
  | step {k m m₁ m'} : (∀ a b, m.Divides f a b → W a b) → m.step f = .ok m₁ →
      Advances f W k m₁ m' → Advances f W (k + 1) m m'

section Advances

variable {f : Function} {W : Int32 → Int32 → Prop} {m m₁ m' : Machine} {k n : Nat} {a b : Int32}

theorem Advances.one (hd : ∀ a b, m.Divides f a b → W a b) (hs : m.step f = .ok m') :
    Advances f W 1 m m' :=
  .step hd hs .refl

theorem Advances.trans (h : Advances f W k m m₁) (h' : Advances f W n m₁ m') :
    Advances f W (k + n) m m' := by
  induction h with
  | refl => rwa [Nat.zero_add]
  | step hd hs _ ih =>
    rw [Nat.add_right_comm]
    exact .step hd hs (ih h')

theorem Advances.run (h : Advances f W k m m') : m.run f k = (m', none) := by
  induction h with
  | refl => rfl
  | step _ hs _ ih => rw [Machine.run_succ_of_ok hs, ih]

theorem Advances.divides (h : Advances f W k m m') {j : Nat} (hj : j < k)
    (hrun : m.run f j = (m₁, none)) (hdiv : m₁.Divides f a b) : W a b := by
  induction h generalizing j with
  | refl => cases hj
  | @step k m m₂ m' hd hs _ ih =>
    cases j with
    | zero =>
      cases hrun
      exact hd a b hdiv
    | succ j =>
      rw [Machine.run_succ_of_ok hs] at hrun
      exact ih (Nat.lt_of_succ_lt_succ hj) hrun

end Advances

/-! ## At the end of the code -/

section Places

variable {f : Function} {b : Builder} {m : Machine}

/-- The machine has done what is in the current block so far. -/
def At (b : Builder) (m : Machine) : Prop :=
  ∃ block, b.blocks[b.current]? = some block ∧ m.block = b.current ∧
    m.index = block.instructions.size

def Begins (n : Nat) (m : Machine) : Prop := m.block = n ∧ m.index = 0

theorem at_fresh (hb : b.Fresh b.current) (hm : Begins b.current m) : At b m := by
  obtain ⟨label, hb⟩ := hb
  exact ⟨_, hb, hm.1, hm.2⟩

theorem next_of_leaves {t : Terminator} (hm : At b m) (hf : b.Leaves t f.blocks) :
    ∃ block, f.blocks[m.block]? = some block ∧ block.instructions[m.index]? = none ∧
      block.terminator = some t := by
  obtain ⟨block, hb, hblock, hindex⟩ := hm
  obtain ⟨block', hb', hf⟩ := hf
  cases hb.symm.trans hb'
  exact ⟨_, hblock ▸ hf, by simp [hindex], rfl⟩

theorem next_of_emit {i : Instruction} (hm : At b m) (hf : Extends (b.emit i).blocks f.blocks) :
    ∃ block, f.blocks[m.block]? = some block ∧ block.instructions[m.index]? = some i := by
  obtain ⟨block, hb, hblock, hindex⟩ := hm
  obtain ⟨block', hf, hp, -⟩ := hf _ _ (Builder.emit_current hb)
  refine ⟨block', hblock ▸ hf, ?_⟩
  obtain ⟨rest, hrest⟩ := hp
  rw [← Array.getElem?_toList, ← hrest, hindex, Array.toList_push]
  simp

theorem step_of_leaves {t : Terminator} (hm : At b m) (hf : b.Leaves t f.blocks) :
    m.step f = m.terminator t := by
  obtain ⟨block, hblock, hi, ht⟩ := next_of_leaves hm hf
  rw [Machine.step, hblock]
  simp [hi, ht]

theorem step_of_emit {i : Instruction} (hm : At b m)
    (hf : Extends (b.emit i).blocks f.blocks) : m.step f = m.instruction i := by
  obtain ⟨block, hblock, hi⟩ := next_of_emit hm hf
  rw [Machine.step, hblock]
  simp [hi]

theorem not_divides_of_leaves {t : Terminator} {x y : Int32} (hm : At b m)
    (hf : b.Leaves t f.blocks) : ¬ m.Divides f x y := by
  rintro ⟨block, i, hblock, hi, -⟩
  obtain ⟨block', hblock', hnone, -⟩ := next_of_leaves hm hf
  cases hblock.symm.trans hblock'
  rw [hi] at hnone
  cases hnone

theorem divides_of_emit {i : Instruction} {x y : Int32} (hm : At b m)
    (hf : Extends (b.emit i).blocks f.blocks) (h : m.Divides f x y) : i.Divides m x y := by
  obtain ⟨block, i', hblock, hi, hdiv⟩ := h
  obtain ⟨block', hblock', hi'⟩ := next_of_emit hm hf
  cases hblock.symm.trans hblock'
  cases hi.symm.trans hi'
  exact hdiv

theorem at_emit {i : Instruction} {m' : Machine} (hm : At b m) (hblock : m'.block = m.block)
    (hindex : m'.index = m.index + 1) : At (b.emit i) m' := by
  obtain ⟨block, hb, hb', hi⟩ := hm
  refine ⟨_, Builder.emit_current hb, hblock.trans hb', ?_⟩
  rw [hindex, hi, Array.size_push]

end Places

/-! ## Keeping up with the evaluator -/

/-- The machine keeps up with a run of the evaluator: it comes to where `post` says, it stops at
the same division by zero, or it goes on for at least `bound` steps. What is printed is the same,
and where the run comes to its end, nothing was divided on the way but what `W` allows. -/
def Simulates {α : Type} (f : Function) (W : Int32 → Int32 → Prop) (bound : Nat) (m : Machine)
    (result : EStateM.Result Halt Eval.State α) (post : α → Eval.State → Machine → Prop) : Prop :=
  match result with
  | .ok a σ => ∃ k m', Advances f W k m m' ∧ post a σ m'
  | .error .unfinished σ => ∃ k m', bound ≤ k ∧ m.run f k = (m', none) ∧ m'.output = σ.output
  | .error (.failed _) σ =>
    ∃ k m', m.run f k = (m', some .divisionByZero) ∧ m'.output = σ.output

section Simulates

variable {α β : Type} {f : Function} {W : Int32 → Int32 → Prop} {bound bound' : Nat}
  {m m' : Machine} {result : EStateM.Result Halt Eval.State α} {x : Eval α} {g : α → Eval β}
  {σ : Eval.State} {post post' : α → Eval.State → Machine → Prop}

theorem Simulates.here {a : α} (h : post a σ m) : Simulates f W bound m (.ok a σ) post :=
  ⟨0, m, .refl, h⟩

theorem Simulates.mono (h : Simulates f W bound m result post)
    (hp : ∀ a σ m', post a σ m' → post' a σ m') : Simulates f W bound m result post' := by
  unfold Simulates at *
  split at h
  · obtain ⟨k, m', hk, hpost⟩ := h
    exact ⟨k, m', hk, hp _ _ _ hpost⟩
  · exact h
  · exact h

theorem Simulates.weaken (h : Simulates f W bound m result post) (hb : bound' ≤ bound) :
    Simulates f W bound' m result post := by
  unfold Simulates at *
  split at h
  · exact h
  · obtain ⟨k, m', hk, hrun⟩ := h
    exact ⟨k, m', Nat.le_trans hb hk, hrun⟩
  · exact h

/-- Steps before the machine is where it keeps up count toward the bound. -/
theorem Simulates.after {k : Nat} (hk : Advances f W k m m')
    (h : Simulates f W bound m' result post) : Simulates f W (k + bound) m result post := by
  unfold Simulates at *
  split at h
  · obtain ⟨n, m'', hn, hpost⟩ := h
    exact ⟨k + n, m'', hk.trans hn, hpost⟩
  · obtain ⟨n, m'', hb, hn, ho⟩ := h
    exact ⟨k + n, m'', by omega, (Machine.run_add hk.run n).trans hn, ho⟩
  · obtain ⟨n, m'', hn, ho⟩ := h
    exact ⟨k + n, m'', (Machine.run_add hk.run n).trans hn, ho⟩

theorem Simulates.extend (h : Simulates f W bound m result post)
    (hp : ∀ a σ m', post a σ m' → ∃ k m'', Advances f W k m' m'' ∧ post' a σ m'') :
    Simulates f W bound m result post' := by
  unfold Simulates at *
  split at h
  · obtain ⟨k, m', hk, hpost⟩ := h
    obtain ⟨n, m'', hn, hpost'⟩ := hp _ _ _ hpost
    exact ⟨k + n, m'', hk.trans hn, hpost'⟩
  · exact h
  · exact h

theorem Simulates.bind {post' : β → Eval.State → Machine → Prop}
    (h : Simulates f W bound m (x.run σ) post)
    (hg : ∀ a σ' m', post a σ' m' → Simulates f W bound m' ((g a).run σ') post') :
    Simulates f W bound m ((x >>= g).run σ) post' := by
  cases hx : x.run σ with
  | ok a σ' =>
    rw [run_bind_of_ok hx]
    rw [hx] at h
    obtain ⟨k, m', hk, hpost⟩ := h
    exact (Simulates.after hk (hg a σ' m' hpost)).weaken (Nat.le_add_left _ _)
  | error halt σ' =>
    rw [run_bind_of_error hx]
    rw [hx] at h
    cases halt with
    | unfinished => exact h
    | failed d => exact h

theorem Simulates.tryFinally {change : Eval.State → Eval.State}
    (hout : ∀ σ, (change σ).output = σ.output)
    (h : Simulates f W bound m (x.run σ) fun a σ' m' => post a (change σ') m') :
    Simulates f W bound m ((tryFinally x (modify change)).run σ) post := by
  rw [run_tryFinally]
  cases hx : x.run σ with
  | ok a σ' =>
    rw [hx] at h
    exact h
  | error halt σ' =>
    rw [hx] at h
    cases halt with
    | unfinished =>
      obtain ⟨k, m', hk, hrun, hm'⟩ := h
      exact ⟨k, m', hk, hrun, hm'.trans (hout σ').symm⟩
    | failed d =>
      obtain ⟨k, m', hrun, hm'⟩ := h
      exact ⟨k, m', hrun, hm'.trans (hout σ').symm⟩

theorem Simulates.and_run (h : Simulates f W bound m (x.run σ) post) :
    Simulates f W bound m (x.run σ) fun a σ' m' => post a σ' m' ∧ x.run σ = .ok a σ' := by
  cases hx : x.run σ with
  | ok a σ' =>
    rw [hx] at h
    obtain ⟨k, m', hk, hpost⟩ := h
    exact ⟨k, m', hk, hpost, rfl⟩
  | error halt σ' =>
    rw [hx] at h
    cases halt with
    | unfinished => exact h
    | failed d => exact h

theorem Simulates.and_safe {safe : α → Eval.State → Prop}
    (h : Simulates f W bound m (x.run σ) post) (hs : Eval.Safe x σ safe) :
    Simulates f W bound m (x.run σ) fun a σ' m' => post a σ' m' ∧ safe a σ' :=
  h.and_run.mono fun _ _ _ ⟨hpost, hrun⟩ => ⟨hpost, hs.of_run hrun⟩

end Simulates

/-! ## One step at the end of the code -/

section Steps

variable {α : Type} {f : Function} {W : Int32 → Int32 → Prop} {bound : Nat} {b : Builder}
  {m m' : Machine} {result : EStateM.Result Halt Eval.State α}
  {post : α → Eval.State → Machine → Prop}

theorem advances_of_leaves {t : Terminator} (hm : At b m) (hl : b.Leaves t f.blocks)
    (ht : m.terminator t = .ok m') : Advances f W 1 m m' :=
  .one (fun _ _ h => absurd h (not_divides_of_leaves hm hl)) ((step_of_leaves hm hl).trans ht)

theorem Simulates.leave {t : Terminator} (hm : At b m) (hl : b.Leaves t f.blocks)
    (ht : m.terminator t = .ok m') (h : Simulates f W bound m' result post) :
    Simulates f W bound m result post :=
  (Simulates.after (advances_of_leaves hm hl ht) h).weaken (Nat.le_add_left _ _)

theorem Simulates.emit {i : Instruction} (hm : At b m) (hf : Extends (b.emit i).blocks f.blocks)
    (hi : m.instruction i = .ok m') (hd : ∀ x y, i.Divides m x y → W x y)
    (h : Simulates f W bound m' result post) : Simulates f W bound m result post :=
  have hpath : Advances f W 1 m m' :=
    .one (fun x y hdiv => hd x y (divides_of_emit hm hf hdiv)) ((step_of_emit hm hf).trans hi)
  (Simulates.after hpath h).weaken (Nat.le_add_left _ _)

end Steps

end Leveret.Code
