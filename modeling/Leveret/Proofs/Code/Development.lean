import Leveret.Proofs.Code.Blocks

/-!
# How code develops

All that lowering does to the code, whatever the tree: it computes into a new register, declares
and performs, jumps, branches and loops. Beside the code goes a list of facts that hold at the
current place whichever way it is come to: a register has been written, a slot has been stored to.
Facts from within a branch or a loop are not known behind it.
-/

namespace Leveret.Code

inductive Fact where
  | register (number : Nat) (ty : Ty)
  | slot (number : Nat)
deriving DecidableEq

def Instruction.gives : Instruction → List Fact
  | .load dest _ ty | .binary dest _ ty _ _ | .neg dest ty _ => [.register dest ty]
  | .icmp dest _ _ _ _ | .fcmp dest _ _ _ => [.register dest .bool]
  | .store slot _ _ => [.slot slot]
  | .call _ _ => []

theorem register_mem_gives {i : Instruction} {n : Nat} {ty : Ty} :
    .register n ty ∈ i.gives ↔ i.result? = some (n, ty) := by
  cases i <;> simp [Instruction.gives, Instruction.result?, eq_comm]

theorem slot_mem_gives {i : Instruction} {n : Nat} :
    .slot n ∈ i.gives ↔ ∃ ty o, i = .store n ty o := by
  cases i <;> simp [Instruction.gives, eq_comm]

/-- What is asked of an instruction, with the slots that there are and the facts that are known,
and of an operand that a branch goes by. More slots and more facts never do harm. -/
structure Law where
  instruction : Array Slot → List Fact → Instruction → Prop
  test : List Fact → Operand → Prop
  instruction_mono {slots slots' known known' i} : slots.toList <+: slots'.toList →
    known ⊆ known' → instruction slots known i → instruction slots' known' i
  test_mono {known known' o} : known ⊆ known' → test known o → test known' o

/-- Code developed from `b` to `b'`, in keeping with a law. At first the facts `known` are known
and then the facts `known'`. -/
inductive Develops (law : Law) : (b : Builder) → (known : List Fact) → (b' : Builder) →
    (known' : List Fact) → Prop
  | refl {b known} : Develops law b known b known
  | trans {b known b₁ known₁ b₂ known₂} : Develops law b known b₁ known₁ →
      Develops law b₁ known₁ b₂ known₂ → Develops law b known b₂ known₂
  | compute {b : Builder} {known i ty} : i.gives = [.register b.nextRegister ty] →
      law.instruction b.slots known i →
      Develops law b known (b.freshRegister.2.emit i) (.register b.nextRegister ty :: known)
  | declare {b : Builder} {known name ty o} :
      law.instruction (b.slots.push ⟨name, ty⟩) known (.store b.slots.size ty o) →
      Develops law b known ((b.allocateSlot name ty).2.emit (.store b.slots.size ty o))
        (.slot b.slots.size :: known)
  | perform {b : Builder} {known i} : (∀ n ty, .register n ty ∉ i.gives) →
      law.instruction b.slots known i → Develops law b known (b.emit i) known
  | jump {b : Builder} {known targets rest target} : b.loops = targets :: rest →
      target = targets.header ∨ target = targets.exit →
      Develops law b known (b.jump (.br target)) known
  | branch {b b₁ b₂ : Builder} {known o known₁ known₂} : law.test known o →
      Develops law (b.forkFirst "then" "else" "merge"
        (.condBr o b.blocks.size (b.blocks.size + 1))) known b₁ known₁ →
      Develops law (b.forkSecond b₁ (.br (b.blocks.size + 2)) b.loops) known b₂ known₂ →
      Develops law b known (b.forkLast b₂ (.br (b.blocks.size + 2))) known
  | loop {b b₁ b₂ : Builder} {known o known₁ known₂} :
      Develops law (b.forkFirst "header" "body" "exit" (.br b.blocks.size)) known b₁ known₁ →
      law.test known₁ o →
      Develops law (b.forkSecond b₁ (.condBr o (b.blocks.size + 1) (b.blocks.size + 2))
        (⟨b.blocks.size, b.blocks.size + 2⟩ :: b.loops)) known b₂ known₂ →
      Develops law b known (b.forkLast b₂ (.br b.blocks.size)) known

namespace Develops

variable {law : Law} {b b' : Builder} {known known' : List Fact}

theorem subset (h : Develops law b known b' known') : known ⊆ known' := by
  induction h with
  | refl => exact List.Subset.refl _
  | trans _ _ ih ih' => exact List.Subset.trans ih ih'
  | compute | declare => exact List.subset_cons_self _ _
  | perform | jump | branch | loop => exact List.Subset.refl _

theorem grown (h : Develops law b known b' known') (hb : b.Ready) : b.Grown b' := by
  induction h with
  | refl => exact .refl hb
  | trans _ _ ih ih' =>
    have hg := ih hb
    exact hg.trans (ih' hg.ready)
  | compute => exact (Builder.freshRegister_grown hb).trans (Builder.emit_grown hb)
  | declare => exact (Builder.allocateSlot_grown hb).trans (Builder.emit_grown hb)
  | perform => exact Builder.emit_grown hb
  | jump => exact Builder.jump_grown hb
  | branch _ _ _ ih ih' | loop _ _ _ ih ih' =>
    have hg := ih (Builder.forkFirst_ready hb)
    exact Builder.forkLast_grown hb hg (ih' (Builder.forkSecond_ready hb hg))

end Develops

theorem binaryInstruction?_eq_some {op : BinaryOp} {ty : Ty} {dest : Nat} {x y : Operand}
    {i : Instruction} (h : Lowering.binaryInstruction? op ty dest x y = some i) :
    i.operands = [x, y] ∧ (∃ ty', i.gives = [.register dest ty']) ∧
      ∀ dest' slot ty', i ≠ .load dest' slot ty' := by
  cases ty <;> cases op <;> cases h
  all_goals exact ⟨rfl, ⟨_, rfl⟩, nofun⟩

end Leveret.Code
