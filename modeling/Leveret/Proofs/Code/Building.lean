import Leveret.Code.Builder

/-!
# Blocks under construction

How the blocks of a function change while it is built: instructions are added at the end of a
block, until the block gets its terminator and is never touched again.
-/

namespace Leveret.Code

/-- Every block of `old` is in `new` too, with more instructions unless it has a terminator. -/
def Extends (old new : Array BasicBlock) : Prop :=
  ∀ (i : Nat) (block : BasicBlock), old[i]? = some block → ∃ block', new[i]? = some block' ∧
    block.instructions.toList <+: block'.instructions.toList ∧
    (block.terminator ≠ none → block' = block)

namespace Extends

variable {a b c : Array BasicBlock}

theorem refl : Extends a a := fun _ block h => ⟨block, h, List.prefix_refl _, fun _ => rfl⟩

theorem trans (h : Extends a b) (h' : Extends b c) : Extends a c := by
  intro i block hi
  obtain ⟨block₁, hi₁, hp₁, ht₁⟩ := h i block hi
  obtain ⟨block₂, hi₂, hp₂, ht₂⟩ := h' i block₁ hi₁
  refine ⟨block₂, hi₂, hp₁.trans hp₂, fun ht => ?_⟩
  obtain rfl := ht₁ ht
  exact ht₂ ht

theorem size (h : Extends a b) : a.size ≤ b.size := by
  rw [← Nat.not_lt]
  intro hb
  obtain ⟨block', hi, -⟩ := h b.size a[b.size] (Array.getElem?_eq_getElem hb)
  simp at hi

theorem push (block : BasicBlock) : Extends a (a.push block) := by
  intro i block' hi
  obtain ⟨hlt, -⟩ := Array.getElem?_eq_some_iff.1 hi
  refine ⟨block', ?_, List.prefix_refl _, fun _ => rfl⟩
  rw [Array.getElem?_push, if_neg (by omega), hi]

end Extends

namespace Builder

variable {b b' : Builder} {i n : Nat} {instruction : Instruction} {t : Terminator}

/-- The block that is being filled is there and has no terminator. -/
def Ready (b : Builder) : Prop :=
  ∃ block, b.blocks[b.current]? = some block ∧ block.terminator = none

def Fresh (b : Builder) (n : Nat) : Prop := ∃ label, b.blocks[n]? = some ⟨label, #[], none⟩

/-- In `blocks`, what `b` was filling ends in the terminator `t`. -/
def Leaves (b : Builder) (t : Terminator) (blocks : Array BasicBlock) : Prop :=
  ∃ block, b.blocks[b.current]? = some block ∧
    blocks[b.current]? = some { block with terminator := some t }

theorem Ready.lt (h : b.Ready) : b.current < b.blocks.size := by
  obtain ⟨block, hb, -⟩ := h
  exact (Array.getElem?_eq_some_iff.1 hb).1

theorem Fresh.lt (h : b.Fresh n) : n < b.blocks.size := by
  obtain ⟨label, hb⟩ := h
  exact (Array.getElem?_eq_some_iff.1 hb).1

theorem Fresh.ready_goTo (h : b.Fresh n) : (b.goTo n).Ready := by
  obtain ⟨label, hb⟩ := h
  exact ⟨_, hb, rfl⟩

theorem Leaves.extends {old new : Array BasicBlock} (h : b.Leaves t old) (he : Extends old new) :
    b.Leaves t new := by
  obtain ⟨block, hb, hold⟩ := h
  obtain ⟨block', hnew, -, ht⟩ := he _ _ hold
  obtain rfl := ht nofun
  exact ⟨block, hb, hnew⟩

/-! ## Filling the current block -/

theorem emit_other (h : i ≠ b.current) : (b.emit instruction).blocks[i]? = b.blocks[i]? := by
  rw [emit, Array.getElem?_modify, if_neg (Ne.symm h)]

theorem emit_current {block : BasicBlock} (h : b.blocks[b.current]? = some block) :
    (b.emit instruction).blocks[b.current]? =
      some { block with instructions := block.instructions.push instruction } := by
  rw [emit, Array.getElem?_modify, if_pos rfl, h]
  rfl

theorem emit_ready (h : b.Ready) : (b.emit instruction).Ready := by
  obtain ⟨block, hb, ht⟩ := h
  exact ⟨_, emit_current hb, ht⟩

theorem emit_extends (h : b.Ready) : Extends b.blocks (b.emit instruction).blocks := by
  obtain ⟨block, hb, ht⟩ := h
  intro i block' hi
  by_cases hc : i = b.current
  · subst hc
    obtain rfl := Option.some.inj (hb.symm.trans hi)
    refine ⟨_, emit_current hb, ?_, fun h => absurd ht h⟩
    rw [Array.toList_push]
    exact List.prefix_append _ _
  · exact ⟨block', (emit_other hc).trans hi, List.prefix_refl _, fun _ => rfl⟩

theorem terminate_other (h : i ≠ b.current) : (b.terminate t).blocks[i]? = b.blocks[i]? := by
  rw [terminate, Array.getElem?_modify, if_neg (Ne.symm h)]

theorem terminate_leaves (h : b.Ready) : b.Leaves t (b.terminate t).blocks := by
  obtain ⟨block, hb, ht⟩ := h
  refine ⟨block, hb, ?_⟩
  rw [terminate, Array.getElem?_modify, if_pos rfl, hb]
  simp [ht]

theorem terminate_extends (h : b.Ready) : Extends b.blocks (b.terminate t).blocks := by
  obtain ⟨block, hb, hblock⟩ := terminate_leaves (t := t) h
  obtain ⟨_, hb', ht⟩ := h
  cases hb.symm.trans hb'
  intro i block' hi
  by_cases hc : i = b.current
  · subst hc
    obtain rfl := Option.some.inj (hb.symm.trans hi)
    exact ⟨_, hblock, List.prefix_refl _, fun h => absurd ht h⟩
  · exact ⟨block', (terminate_other hc).trans hi, List.prefix_refl _, fun _ => rfl⟩

/-! ## New blocks -/

theorem createBlock_old {name : String} (h : i < b.blocks.size) :
    (b.createBlock name).2.blocks[i]? = b.blocks[i]? := by
  rw [createBlock, Array.getElem?_push, if_neg (by omega)]

theorem createBlock_fresh (name : String) : (b.createBlock name).2.Fresh b.blocks.size :=
  ⟨_, Array.getElem?_push_size⟩

theorem Fresh.createBlock (name : String) (h : b.Fresh n) : (b.createBlock name).2.Fresh n := by
  obtain ⟨label, hb⟩ := h
  exact ⟨label, (createBlock_old (Fresh.lt ⟨label, hb⟩)).trans hb⟩

theorem createBlock_ready (name : String) (h : b.Ready) : (b.createBlock name).2.Ready := by
  obtain ⟨block, hb, ht⟩ := h
  exact ⟨block, (createBlock_old (Ready.lt ⟨block, hb, ht⟩)).trans hb, ht⟩

end Builder

end Leveret.Code
