import Leveret.Proofs.Code.Growth

/-!
# Looking into blocks

The label, the instructions and the end of a block by its number, and how each of them changes
while code is built.
-/

namespace Leveret.Code

/-! ## Operands, results and targets -/

def Instruction.operands : Instruction → List Operand
  | .load _ _ _ => []
  | .store _ _ value => [value]
  | .binary _ _ _ left right | .icmp _ _ _ left right | .fcmp _ _ left right => [left, right]
  | .neg _ _ operand => [operand]
  | .call _ args => args.map Prod.snd

/-- The register that is written, and the type of its value. -/
def Instruction.result? : Instruction → Option (Nat × Ty)
  | .load dest _ ty | .binary dest _ ty _ _ | .neg dest ty _ => some (dest, ty)
  | .icmp dest _ _ _ _ | .fcmp dest _ _ _ => some (dest, .bool)
  | .store _ _ _ | .call _ _ => none

namespace Terminator

def operands : Terminator → List Operand
  | br _ => []
  | condBr condition _ _ => [condition]
  | ret value => [value]

def targets : Terminator → List Nat
  | br target => [target]
  | condBr _ onTrue onFalse => [onTrue, onFalse]
  | ret _ => []

end Terminator

/-! ## Views -/

def labelAt (blocks : Array BasicBlock) (k : Nat) : Option String := blocks[k]?.map (·.label)

def endAt (blocks : Array BasicBlock) (k : Nat) : Option Terminator :=
  blocks[k]?.bind (·.terminator)

def codeAt (blocks : Array BasicBlock) (k : Nat) : List Instruction :=
  (blocks[k]?.map (·.instructions.toList)).getD []

section Views

variable {blocks : Array BasicBlock} {change : BasicBlock → BasicBlock} {c k : Nat}

theorem labelAt_modify (h : ∀ block, (change block).label = block.label) :
    labelAt (blocks.modify c change) k = labelAt blocks k := by
  unfold labelAt
  rw [Array.getElem?_modify]
  split
  · rw [Option.map_map]
    exact congrArg (blocks[k]?.map ·) (funext h)
  · rfl

theorem endAt_modify (h : ∀ block, (change block).terminator = block.terminator) :
    endAt (blocks.modify c change) k = endAt blocks k := by
  unfold endAt
  rw [Array.getElem?_modify]
  split
  · rw [Option.bind_map]
    exact congrArg (blocks[k]?.bind ·) (funext h)
  · rfl

theorem codeAt_modify (h : ∀ block, (change block).instructions = block.instructions) :
    codeAt (blocks.modify c change) k = codeAt blocks k := by
  unfold codeAt
  rw [Array.getElem?_modify]
  split
  · rw [Option.map_map]
    refine congrArg (fun f => (blocks[k]?.map f).getD []) (funext fun block => ?_)
    exact congrArg Array.toList (h block)
  · rfl

theorem lt_of_labelAt {label : String} (h : labelAt blocks k = some label) : k < blocks.size := by
  obtain ⟨block, hb, -⟩ := Option.map_eq_some_iff.1 h
  exact (Array.getElem?_eq_some_iff.1 hb).1

theorem lt_of_endAt {t : Terminator} (h : endAt blocks k = some t) : k < blocks.size := by
  obtain ⟨block, hb, -⟩ := Option.bind_eq_some_iff.1 h
  exact (Array.getElem?_eq_some_iff.1 hb).1

theorem codeAt_of_le (h : blocks.size ≤ k) : codeAt blocks k = [] := by
  rw [codeAt, Array.getElem?_eq_none h]
  rfl

theorem lt_of_codeAt {j : Nat} {i : Instruction} (h : (codeAt blocks k)[j]? = some i) :
    k < blocks.size := by
  refine Nat.lt_of_not_le fun hk => ?_
  rw [codeAt_of_le hk] at h
  cases h

theorem Extends.endAt {new : Array BasicBlock} {t : Terminator} (h : Extends blocks new)
    (ht : endAt blocks k = some t) : endAt new k = some t := by
  obtain ⟨block, hb, ht⟩ := Option.bind_eq_some_iff.1 ht
  obtain ⟨block', hb', -, heq⟩ := h k block hb
  have hblock : block' = block := heq (by rw [ht]; exact nofun)
  exact Option.bind_eq_some_iff.2 ⟨block, hblock ▸ hb', ht⟩

end Views

namespace Builder

variable {b b₁ b₂ : Builder} {i : Instruction} {t : Terminator} {x y z name : String}
  {loops : List LoopTargets} {k : Nat}

/-! ## Labels -/

theorem emit_labelAt : labelAt (b.emit i).blocks k = labelAt b.blocks k :=
  labelAt_modify fun _ => rfl

theorem terminate_labelAt : labelAt (b.terminate t).blocks k = labelAt b.blocks k :=
  labelAt_modify fun _ => rfl

theorem createBlock_labelAt : labelAt (b.createBlock name).2.blocks k =
    if k = b.blocks.size then some (labelFor name k) else labelAt b.blocks k := by
  unfold labelAt createBlock
  rw [Array.getElem?_push]
  split
  · rename_i hk
    rw [hk]
    rfl
  · rfl

/-! ## Ends -/

theorem Ready.endAt (h : b.Ready) : endAt b.blocks b.current = none := by
  obtain ⟨block, hb, ht⟩ := h
  rw [Code.endAt, hb, Option.bind_some, ht]

theorem Ready.ne_current (h : b.Ready) (ht : Code.endAt b.blocks k = some t) : k ≠ b.current := by
  rintro rfl
  rw [h.endAt] at ht
  cases ht

theorem Leaves.endAt {blocks : Array BasicBlock} (h : b.Leaves t blocks) :
    endAt blocks b.current = some t := by
  obtain ⟨block, -, hblock⟩ := h
  rw [Code.endAt, hblock]
  rfl

theorem emit_endAt : endAt (b.emit i).blocks k = endAt b.blocks k := endAt_modify fun _ => rfl

theorem terminate_endAt (h : b.Ready) : endAt (b.terminate t).blocks k =
    if k = b.current then some t else endAt b.blocks k := by
  split
  · rename_i hk
    rw [hk]
    exact (terminate_leaves h).endAt
  · rename_i hk
    rw [Code.endAt, terminate_other hk]
    rfl

theorem createBlock_endAt : endAt (b.createBlock name).2.blocks k = endAt b.blocks k := by
  unfold Code.endAt createBlock
  rw [Array.getElem?_push]
  split
  · rename_i hk
    rw [hk, Array.getElem?_size]
    rfl
  · rfl

/-! ## Instructions -/

theorem emit_codeAt (h : b.Ready) : codeAt (b.emit i).blocks k =
    if k = b.current then codeAt b.blocks k ++ [i] else codeAt b.blocks k := by
  split
  · rename_i hk
    subst hk
    obtain ⟨block, hb, -⟩ := h
    rw [codeAt, codeAt, emit_current hb, hb]
    exact Array.toList_push
  · rename_i hk
    rw [codeAt, emit_other hk]
    rfl

theorem emit_instruction {i' : Instruction} {j : Nat} (h : b.Ready)
    (hi : (codeAt (b.emit i).blocks k)[j]? = some i') : (codeAt b.blocks k)[j]? = some i' ∨
      k = b.current ∧ j = (codeAt b.blocks k).length ∧ i' = i := by
  rw [emit_codeAt h] at hi
  split at hi
  · rename_i hk
    rw [List.getElem?_append] at hi
    split at hi
    · exact .inl hi
    · rename_i hj
      rw [List.getElem?_singleton] at hi
      split at hi
      · cases hi
        exact .inr ⟨hk, by omega, rfl⟩
      · cases hi
  · exact .inl hi

theorem emit_take {j : Nat} (h : b.Ready) (hj : j ≤ (codeAt b.blocks k).length) :
    (codeAt (b.emit i).blocks k).take j = (codeAt b.blocks k).take j := by
  rw [emit_codeAt h]
  split
  · exact List.take_append_of_le_length hj
  · rfl

theorem terminate_codeAt : codeAt (b.terminate t).blocks k = codeAt b.blocks k :=
  codeAt_modify fun _ => rfl

theorem createBlock_codeAt : codeAt (b.createBlock name).2.blocks k = codeAt b.blocks k := by
  unfold codeAt createBlock
  rw [Array.getElem?_push]
  split
  · rename_i hk
    rw [hk, Array.getElem?_size]
    rfl
  · rfl

theorem Fresh.codeAt (h : b.Fresh k) : codeAt b.blocks k = [] := by
  obtain ⟨label, hb⟩ := h
  rw [Code.codeAt, hb]
  rfl

/-! ## The first block -/

theorem initial_ready : initial.Ready := ⟨_, rfl, rfl⟩

theorem initial_codeAt : codeAt initial.blocks k = [] := by
  cases k with
  | zero => rfl
  | succ k => exact codeAt_of_le (Nat.succ_pos k)

theorem initial_endAt : endAt initial.blocks k = none := by
  cases k with
  | zero => rfl
  | succ k => rw [Code.endAt, Array.getElem?_eq_none (Nat.succ_pos k), Option.bind_none]

/-! ## Numbers of blocks -/

theorem emit_size : (b.emit i).blocks.size = b.blocks.size := Array.size_modify

theorem jump_size : (b.jump t).blocks.size = b.blocks.size + 1 := by
  change ((b.terminate t).createBlock "unreachable").2.blocks.size = _
  rw [createBlock_size, terminate_size]

theorem forkFirst_size : (b.forkFirst x y z t).blocks.size = b.blocks.size + 3 := by
  change (Builder.terminate _ _).blocks.size = _
  rw [terminate_size, fork_size]

theorem forkSecond_size : (b.forkSecond b₁ t loops).blocks.size = b₁.blocks.size := terminate_size

theorem forkLast_size : (b.forkLast b₂ t).blocks.size = b₂.blocks.size := terminate_size

def InFork (b : Builder) (k : Nat) : Prop := b.blocks.size ≤ k ∧ k < b.blocks.size + 3

end Builder

end Leveret.Code
