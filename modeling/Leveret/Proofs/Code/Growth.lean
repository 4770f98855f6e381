import Leveret.Code.Lowering
import Leveret.Proofs.Code.Building
import Leveret.Proofs.Steps

/-!
# How code grows

Lowering a part of a tree goes on filling the current block and makes new blocks; it leaves all
other blocks as they are. So a block that was made in advance is still empty when its turn comes.
-/

namespace Leveret.Code

namespace Builder

/-- From `b` to `b'` code is only added, and of the first `n` blocks at most `c` is touched. -/
structure Within (n c : Nat) (b b' : Builder) : Prop where
  blocks : Extends b.blocks b'.blocks
  others : ∀ i < n, i ≠ c → b'.blocks[i]? = b.blocks[i]?
  slots : b.slots.toList <+: b'.slots.toList
  registers : b.nextRegister ≤ b'.nextRegister

/-- From `b` to `b'` code is added at the current block and in new blocks. -/
structure Grown (b b' : Builder) : Prop where
  within : Within b.blocks.size b.current b b'
  cursor : b'.current = b.current ∨ b.blocks.size ≤ b'.current
  ready : b'.Ready
  loops : b'.loops = b.loops

variable {b b' b'' : Builder} {n n' c c' k : Nat} {t : Terminator}

theorem Within.refl : Within n c b b :=
  ⟨.refl, fun _ _ _ => rfl, List.prefix_refl _, Nat.le_refl _⟩

theorem Within.trans (h : Within n c b b') (h' : Within n c b' b'') : Within n c b b'' where
  blocks := h.blocks.trans h'.blocks
  others i hi hc := (h'.others i hi hc).trans (h.others i hi hc)
  slots := h.slots.trans h'.slots
  registers := Nat.le_trans h.registers h'.registers

theorem Within.mono (h : Within n' c' b b') (hn : n ≤ n') (hc : c' = c ∨ n ≤ c') :
    Within n c b b' :=
  { h with others := fun i hi hic => h.others i (by omega) (by omega) }

theorem Grown.refl (h : b.Ready) : Grown b b := ⟨.refl, .inl rfl, h, rfl⟩

theorem Grown.trans (h : Grown b b') (h' : Grown b' b'') : Grown b b'' where
  within := by
    have hsize := h.within.blocks.size
    refine h.within.trans (h'.within.mono hsize ?_)
    rcases h.cursor with hc | hc
    · exact .inl hc
    · exact .inr hc
  cursor := by
    have hsize := h.within.blocks.size
    rcases h'.cursor with hc' | hc'
    · rw [hc']
      exact h.cursor
    · exact .inr (Nat.le_trans hsize hc')
  ready := h'.ready
  loops := h'.loops.trans h.loops

/-! ## Single changes -/

theorem emit_grown {i : Instruction} (h : b.Ready) : Grown b (b.emit i) where
  within := ⟨emit_extends h, fun _ _ hi => emit_other hi, List.prefix_refl _, Nat.le_refl _⟩
  cursor := .inl rfl
  ready := emit_ready h
  loops := rfl

theorem freshRegister_grown (h : b.Ready) : Grown b b.freshRegister.2 where
  within := ⟨.refl, fun _ _ _ => rfl, List.prefix_refl _, Nat.le_succ _⟩
  cursor := .inl rfl
  ready := h
  loops := rfl

theorem allocateSlot_grown {name : String} {ty : Ty} (h : b.Ready) :
    Grown b (b.allocateSlot name ty).2 where
  within := by
    refine ⟨.refl, fun _ _ _ => rfl, ?_, Nat.le_refl _⟩
    rw [allocateSlot, Array.toList_push]
    exact List.prefix_append _ _
  cursor := .inl rfl
  ready := h
  loops := rfl

theorem terminate_within (h : b.Ready) (hc : b.current = c ∨ n ≤ b.current) :
    Within n c b (b.terminate t) where
  blocks := terminate_extends h
  others i hi hic := terminate_other (by omega)
  slots := List.prefix_refl _
  registers := Nat.le_refl _

theorem createBlock_within (name : String) (hn : n ≤ b.blocks.size) :
    Within n c b (b.createBlock name).2 where
  blocks := Extends.push _
  others i hi _ := createBlock_old (by omega)
  slots := List.prefix_refl _
  registers := Nat.le_refl _

theorem createBlock_size (name : String) :
    (b.createBlock name).2.blocks.size = b.blocks.size + 1 := Array.size_push _

def jump (b : Builder) (t : Terminator) : Builder :=
  let (dead, b) := (b.terminate t).createBlock "unreachable"
  b.goTo dead

theorem terminate_size : (b.terminate t).blocks.size = b.blocks.size := Array.size_modify

theorem jump_grown (h : b.Ready) : Grown b (b.jump t) where
  within := (terminate_within h (.inl rfl)).trans
    { createBlock_within _ (Nat.le_of_eq terminate_size.symm) with }
  cursor := .inr (Nat.le_of_eq terminate_size.symm)
  ready := (createBlock_fresh _).ready_goTo
  loops := rfl

theorem jump_leaves (h : b.Ready) : b.Leaves t (b.jump t).blocks :=
  (terminate_leaves h).extends (Extends.push _)

/-! ## Blocks made in advance -/

/-- The block is empty and it is not its turn. -/
def Waits (b : Builder) (k : Nat) : Prop := b.Fresh k ∧ k ≠ b.current

theorem Waits.grown (h : b.Waits k) (hg : Grown b b') : b'.Waits k := by
  obtain ⟨⟨label, hb⟩, hk⟩ := h
  have hlt := Fresh.lt ⟨label, hb⟩
  refine ⟨⟨label, (hg.within.others k hlt hk).trans hb⟩, ?_⟩
  rcases hg.cursor with hc | hc
  · rw [hc]
    exact hk
  · omega

theorem Waits.terminate (h : b.Waits k) : (b.terminate t).Waits k := by
  obtain ⟨⟨label, hb⟩, hk⟩ := h
  exact ⟨⟨label, (terminate_other hk).trans hb⟩, hk⟩

/-! ## Forks

A conditional and a loop are built alike: three new blocks, code that goes into the first two, and
the third one, where everything meets again. -/

def fork (b : Builder) (x y z : String) : Builder :=
  (((b.createBlock x).2.createBlock y).2.createBlock z).2

/-- The current block ends in `t`, and the first of three new blocks has its turn. -/
def forkFirst (b : Builder) (x y z : String) (t : Terminator) : Builder :=
  ((b.fork x y z).terminate t).goTo b.blocks.size

/-- The first piece of code ends in `t`, and the second one has its turn, with other loops around
it. -/
def forkSecond (b b₁ : Builder) (t : Terminator) (loops : List LoopTargets) : Builder :=
  { (b₁.terminate t).goTo (b.blocks.size + 1) with loops }

/-- The second piece of code ends in `t`, and the third block has its turn. -/
def forkLast (b b₂ : Builder) (t : Terminator) : Builder :=
  ({ b₂ with loops := b.loops }.terminate t).goTo (b.blocks.size + 2)

section Fork

variable {x y z : String} {t₀ t₁ t₂ : Terminator} {loops : List LoopTargets} {b₁ b₂ : Builder}

theorem forkSecond_eq (h : b₁.loops = b.loops) :
    b.forkSecond b₁ t₁ b.loops = (b₁.terminate t₁).goTo (b.blocks.size + 1) := by
  rw [← h]
  rfl

theorem forkLast_eq (h : b₂.loops = b.loops) :
    b.forkLast b₂ t₂ = (b₂.terminate t₂).goTo (b.blocks.size + 2) := by
  rw [forkLast, ← h]

theorem fork_size : (b.fork x y z).blocks.size = b.blocks.size + 3 := by
  rw [fork, createBlock_size, createBlock_size, createBlock_size]

theorem fork_old {i : Nat} (h : i < b.blocks.size) :
    (b.fork x y z).blocks[i]? = b.blocks[i]? := by
  rw [fork, createBlock_old, createBlock_old, createBlock_old h]
  · rw [createBlock_size]
    omega
  · rw [createBlock_size, createBlock_size]
    omega

theorem fork_fresh (hk : b.blocks.size ≤ k) (hk' : k < b.blocks.size + 3) :
    (b.fork x y z).Fresh k := by
  obtain rfl | rfl | rfl :
    k = b.blocks.size ∨ k = b.blocks.size + 1 ∨ k = b.blocks.size + 2 := by omega
  · exact ((createBlock_fresh x).createBlock y).createBlock z
  · have hy := createBlock_fresh (b := (b.createBlock x).2) y
    rw [createBlock_size] at hy
    exact hy.createBlock z
  · have hz := createBlock_fresh (b := ((b.createBlock x).2.createBlock y).2) z
    rwa [createBlock_size, createBlock_size] at hz

theorem fork_ready (h : b.Ready) : (b.fork x y z).Ready :=
  createBlock_ready z (createBlock_ready y (createBlock_ready x h))

theorem fork_within : Within b.blocks.size c b (b.fork x y z) := by
  have h₁ : Within b.blocks.size c b (b.createBlock x).2 := createBlock_within x (Nat.le_refl _)
  have h₂ := h₁.trans (createBlock_within y h₁.blocks.size)
  exact h₂.trans (createBlock_within z h₂.blocks.size)

theorem forkFirst_within (h : b.Ready) :
    Within b.blocks.size b.current b (b.forkFirst x y z t₀) :=
  { fork_within.trans (terminate_within (fork_ready h) (.inl rfl)) with }

theorem forkFirst_fresh (h : b.Ready) (hk : b.blocks.size ≤ k) (hk' : k < b.blocks.size + 3) :
    (b.forkFirst x y z t₀).Fresh k := by
  have hne : k ≠ (b.fork x y z).current := fun hc => by
    have hlt := h.lt
    have hcur : (b.fork x y z).current = b.current := rfl
    omega
  exact (Waits.terminate ⟨fork_fresh hk hk', hne⟩).1

theorem forkFirst_waits (h : b.Ready) (hk : b.blocks.size < k) (hk' : k < b.blocks.size + 3) :
    (b.forkFirst x y z t₀).Waits k :=
  ⟨forkFirst_fresh h (Nat.le_of_lt hk) hk', Nat.ne_of_gt hk⟩

theorem forkFirst_ready (h : b.Ready) : (b.forkFirst x y z t₀).Ready :=
  (forkFirst_fresh h (Nat.le_refl _) (by omega)).ready_goTo

theorem forkFirst_leaves (h : b.Ready) : b.Leaves t₀ (b.forkFirst x y z t₀).blocks := by
  obtain ⟨block, hb, ht⟩ := terminate_leaves (t := t₀) (fork_ready (x := x) (y := y) (z := z) h)
  exact ⟨block, (fork_old h.lt).symm.trans hb, ht⟩

theorem forkFirst_grown (h : b.Ready) : Grown b (b.forkFirst x y z t₀) :=
  ⟨forkFirst_within h, .inr (Nat.le_refl _), forkFirst_ready h, rfl⟩

theorem forkFirst_cursor (h₁ : Grown (b.forkFirst x y z t₀) b₁) : b.blocks.size ≤ b₁.current := by
  rcases h₁.cursor with hc | hc
  · exact Nat.le_of_eq hc.symm
  · rw [forkFirst, goTo, terminate_size, fork_size] at hc
    omega

variable (h : b.Ready) (h₁ : Grown (b.forkFirst x y z t₀) b₁)
include h h₁

theorem forkSecond_waits : (b.forkSecond b₁ t₁ loops).Waits (b.blocks.size + 2) :=
  ⟨((forkFirst_waits h (by omega) (by omega)).grown h₁).terminate.1, Nat.succ_ne_self _⟩

theorem forkSecond_fresh : (b.forkSecond b₁ t₁ loops).Fresh (b.blocks.size + 1) := by
  have hw : b₁.Waits (b.blocks.size + 1) := (forkFirst_waits h (by omega) (by omega)).grown h₁
  exact hw.terminate.1

theorem forkSecond_ready : (b.forkSecond b₁ t₁ loops).Ready := (forkSecond_fresh h h₁).ready_goTo

theorem forkSecond_within : Within b.blocks.size b.current b (b.forkSecond b₁ t₁ loops) := by
  have hfirst : Within b.blocks.size b.current b (b.forkFirst x y z t₀) := forkFirst_within h
  have hcode : Within b.blocks.size b.current _ b₁ :=
    h₁.within.mono hfirst.blocks.size (.inr (Nat.le_refl _))
  have hend : Within b.blocks.size b.current b₁ (b.forkSecond b₁ t₁ loops) :=
    { terminate_within h₁.ready (.inr (forkFirst_cursor h₁)) with }
  exact hfirst.trans (hcode.trans hend)

variable (h₂ : Grown (b.forkSecond b₁ t₁ loops) b₂)
include h₂

theorem forkSecond_cursor : b.blocks.size ≤ b₂.current := by
  rcases h₂.cursor with hc | hc
  · rw [hc]
    exact Nat.le_succ _
  · exact Nat.le_trans (forkSecond_within h h₁).blocks.size hc

theorem forkLast_fresh : (b.forkLast b₂ t₂).Fresh (b.blocks.size + 2) := by
  have hw : b₂.Waits (b.blocks.size + 2) := (forkSecond_waits h h₁).grown h₂
  exact (Waits.terminate (b := { b₂ with loops := b.loops }) hw).1

theorem forkLast_within : Within b.blocks.size b.current b₂ (b.forkLast b₂ t₂) :=
  { terminate_within h₂.ready (.inr (forkSecond_cursor h h₁ h₂)) with }

theorem forkLast_grown : Grown b (b.forkLast b₂ t₂) where
  within := by
    have hsecond : Within b.blocks.size b.current b (b.forkSecond b₁ t₁ loops) :=
      forkSecond_within h h₁
    exact hsecond.trans ((h₂.within.mono hsecond.blocks.size (.inr (Nat.le_succ _))).trans
      (forkLast_within h h₁ h₂))
  cursor := .inr (Nat.le_add_right _ _)
  ready := (forkLast_fresh h h₁ h₂).ready_goTo
  loops := rfl

theorem forkLast_extends : Extends b₁.blocks (b.forkLast b₂ t₂).blocks ∧
    Extends b₂.blocks (b.forkLast b₂ t₂).blocks := by
  have hlast : Extends b₂.blocks (b.forkLast b₂ t₂).blocks := (forkLast_within h h₁ h₂).blocks
  have hend : Extends b₁.blocks (b.forkSecond b₁ t₁ loops).blocks := terminate_extends h₁.ready
  exact ⟨hend.trans (h₂.within.blocks.trans hlast), hlast⟩

theorem forkLast_leaves : b.Leaves t₀ (b.forkLast b₂ t₂).blocks ∧
    b₁.Leaves t₁ (b.forkLast b₂ t₂).blocks ∧ b₂.Leaves t₂ (b.forkLast b₂ t₂).blocks := by
  obtain ⟨he₁, he₂⟩ := forkLast_extends h h₁ h₂
  have hl₁ : b₁.Leaves t₁ (b.forkSecond b₁ t₁ loops).blocks := terminate_leaves h₁.ready
  exact ⟨(forkFirst_leaves h).extends (h₁.within.blocks.trans he₁),
    hl₁.extends (h₂.within.blocks.trans he₂), terminate_leaves h₂.ready⟩

end Fork

end Builder

end Leveret.Code
