import Leveret.Pipeline
import Leveret.Proofs.Code.Certificate
import Leveret.Proofs.Code.Flow

/-!
# Definitions before uses

In the code of any tree that can be lowered, a register is written in one place, and that place
comes before every use of the register: in the order of the blocks, and on every way through them.
Nor can a slot be loaded on any way on which nothing has been stored in it.
-/

namespace Leveret

namespace Code

/-! ## Places -/

section Places

variable (blocks : Array BasicBlock)

def Assigns (n k j : Nat) : Prop :=
  ∃ i ty, (codeAt blocks k)[j]? = some i ∧ i.result? = some (n, ty)

/-- The operand is one of the instruction at this place, or of the end of the block if the place
is behind all instructions. -/
def Uses (o : Operand) (k j : Nat) : Prop :=
  (∃ i, (codeAt blocks k)[j]? = some i ∧ o ∈ i.operands) ∨
    j = (codeAt blocks k).length ∧ ∃ t, endAt blocks k = some t ∧ o ∈ t.operands

/-- A way from the first block to a place, with the places of all instructions on it. -/
inductive Path : (done : List (Nat × Nat)) → (k j : Nat) → Prop
  | start : Path [] 0 0
  | step {done k j i} : Path done k j → (codeAt blocks k)[j]? = some i →
      Path (done ++ [(k, j)]) k (j + 1)
  | follow {done k t n} : Path done k (codeAt blocks k).length → endAt blocks k = some t →
      n ∈ t.targets → Path done n 0

end Places

variable {law : Law} {start : Nat → List Fact} {b b' : Builder} {known known' : List Fact}

/-! ## Single assignment -/

namespace Builder

/-- Registers are written once, and the next one not at all. -/
structure Numbered (b : Builder) : Prop where
  below : ∀ n k j, Assigns b.blocks n k j → n < b.nextRegister
  unique : ∀ n k j k' j', Assigns b.blocks n k j → Assigns b.blocks n k' j' → k = k' ∧ j = j'

theorem Numbered.congr (h : b.Numbered) (hc : ∀ k, codeAt b'.blocks k = codeAt b.blocks k)
    (hn : b.nextRegister ≤ b'.nextRegister) : b'.Numbered := by
  have hassigns {n k j : Nat} (ha : Assigns b'.blocks n k j) : Assigns b.blocks n k j := by
    rw [Assigns, hc] at ha
    exact ha
  exact ⟨fun n k j ha => Nat.lt_of_lt_of_le (h.below n k j (hassigns ha)) hn,
    fun n k j k' j' ha ha' => h.unique n k j k' j' (hassigns ha) (hassigns ha')⟩

theorem emit_assigns {i : Instruction} {n k j : Nat} (hb : b.Ready)
    (h : Assigns (b.emit i).blocks n k j) : Assigns b.blocks n k j ∨
      k = b.current ∧ j = (codeAt b.blocks b.current).length ∧ ∃ ty, i.result? = some (n, ty) := by
  obtain ⟨i', ty, hi', hres⟩ := h
  rcases emit_instruction hb hi' with hold | ⟨rfl, rfl, rfl⟩
  · exact .inl ⟨i', ty, hold, hres⟩
  · exact .inr ⟨rfl, rfl, ty, hres⟩

theorem Numbered.emit {i : Instruction} (h : b.Numbered) (hb : b.Ready)
    (hi : ∀ n ty, i.result? = some (n, ty) →
      n < b.nextRegister ∧ ∀ k j, ¬ Assigns b.blocks n k j) : (b.emit i).Numbered where
  below n k j ha := by
    rcases emit_assigns hb ha with ha | ⟨-, -, ty, hres⟩
    · exact h.below n k j ha
    · exact (hi n ty hres).1
  unique n k j k' j' ha ha' := by
    rcases emit_assigns hb ha with ha | ⟨rfl, rfl, ty, hres⟩ <;>
      rcases emit_assigns hb ha' with ha' | ⟨rfl, rfl, ty', hres'⟩
    · exact h.unique n k j k' j' ha ha'
    · exact absurd ha ((hi n ty' hres').2 k j)
    · exact absurd ha' ((hi n ty hres).2 k' j')
    · exact ⟨rfl, rfl⟩

theorem numbered_initial : initial.Numbered := by
  have hnone (n k j : Nat) : ¬ Assigns initial.blocks n k j := by
    rintro ⟨i, ty, hi, -⟩
    rw [initial_codeAt] at hi
    cases hi
  exact ⟨fun n k j ha => absurd ha (hnone n k j),
    fun n k j _ _ ha => absurd ha (hnone n k j)⟩

end Builder

theorem Develops.numbered (h : Develops law b known b' known') (hb : b.Ready)
    (hn : b.Numbered) : b'.Numbered := by
  induction h with
  | refl => exact hn
  | trans h _ ih ih' => exact ih' (h.grown hb).ready (ih hb hn)
  | @compute b known i ty hi hl =>
    have hfresh : b.freshRegister.2.Numbered := hn.congr (fun _ => rfl) (Nat.le_succ _)
    refine hfresh.emit hb fun n ty' hres => ?_
    have hmem := register_mem_gives.2 hres
    rw [hi, List.mem_singleton] at hmem
    cases hmem
    exact ⟨Nat.lt_succ_self _, fun k j ha => Nat.lt_irrefl _ (hn.below _ k j ha)⟩
  | @declare b known name ty o hl =>
    have hslot : (b.allocateSlot name ty).2.Numbered := hn.congr (fun _ => rfl) (Nat.le_refl _)
    exact hslot.emit hb nofun
  | perform hi hl =>
    exact hn.emit hb fun n ty hres => absurd (register_mem_gives.2 hres) (hi n ty)
  | jump =>
    refine hn.congr (fun k => ?_) (Nat.le_refl _)
    exact Builder.createBlock_codeAt.trans Builder.terminate_codeAt
  | branch _ h₁ h₂ ih₁ ih₂ | loop h₁ _ h₂ ih₁ ih₂ =>
    have hg₁ := h₁.grown (Builder.forkFirst_ready hb)
    have hn₁ := ih₁ (Builder.forkFirst_ready hb) (hn.congr (fun k => ?_) (Nat.le_refl _))
    · have hn₂ := ih₂ (Builder.forkSecond_ready hb hg₁)
        (hn₁.congr (fun k => Builder.terminate_codeAt) (Nat.le_refl _))
      exact hn₂.congr (fun k => Builder.terminate_codeAt) (Nat.le_refl _)
    · exact Builder.terminate_codeAt.trans (Builder.createBlock_codeAt.trans
        (Builder.createBlock_codeAt.trans Builder.createBlock_codeAt))

/-! ## Uses -/

namespace Certified

variable (h : Certified flow start b) {n k j : Nat}
include h

theorem known_of_uses (hu : Uses b.blocks (.register n) k j) :
    ∃ ty, .register n ty ∈ knownAfter (start k) ((codeAt b.blocks k).take j) := by
  rcases hu with ⟨i, hi, ho⟩ | ⟨rfl, t, ht, ho⟩
  · exact (h.instructions k j i hi).1 _ ho
  · rw [List.take_length]
    exact h.tests k t ht _ ho

theorem assigned_before (hu : Uses b.blocks (.register n) k j) :
    ∃ k' j', Assigns b.blocks n k' j' ∧ (k' < k ∨ k' = k ∧ j' < j) := by
  have hk : k < b.blocks.size := by
    rcases hu with ⟨i, hi, -⟩ | ⟨-, t, ht, -⟩
    · exact lt_of_codeAt hi
    · exact lt_of_endAt ht
  obtain ⟨ty, hty⟩ := h.known_of_uses hu
  rcases List.mem_append.1 hty with hstart | hcode
  · obtain ⟨k', hk', i, hi, hres⟩ := h.origins k hk n ty hstart
    obtain ⟨j', hj'⟩ := List.mem_iff_getElem?.1 hi
    exact ⟨k', j', ⟨i, ty, hj', hres⟩, .inl hk'⟩
  · obtain ⟨i, hi, hgives⟩ := List.mem_flatMap.1 hcode
    obtain ⟨j', hj', rfl⟩ := List.mem_take_iff_getElem.1 hi
    rw [Nat.lt_min] at hj'
    exact ⟨k, j', ⟨_, ty, List.getElem?_eq_getElem hj'.2, register_mem_gives.1 hgives⟩,
      .inr ⟨rfl, hj'.1⟩⟩

end Certified

/-- Whatever way has been taken to a place, the instructions on it have seen to all that is known
there. -/
theorem Certified.path (h : Certified law start b) (hstart : start 0 = [])
    {done : List (Nat × Nat)} {k j : Nat} (hp : Path b.blocks done k j) {fact : Fact}
    (hf : fact ∈ knownAfter (start k) ((codeAt b.blocks k).take j)) :
    ∃ place ∈ done, ∃ i, (codeAt b.blocks place.1)[place.2]? = some i ∧ fact ∈ i.gives := by
  induction hp with
  | start =>
    rw [hstart, List.take_zero] at hf
    cases hf
  | @step done k j i _ hi ih =>
    rw [List.take_add_one, hi, knownAfter_append] at hf
    rcases List.mem_append.1 hf with hf | hf
    · obtain ⟨place, hplace, hgives⟩ := ih hf
      exact ⟨place, List.mem_append_left _ hplace, hgives⟩
    · refine ⟨(k, j), List.mem_append_right _ List.mem_cons_self, i, hi, ?_⟩
      simpa using hf
  | @follow done k t n _ ht hn ih =>
    -- a block begins with no more than is known at the end of each block that leads to it
    rw [List.take_zero, knownAfter, List.flatMap_nil, List.append_nil] at hf
    rw [List.take_length] at ih
    exact ih ((h.targets k t ht n hn).2 hf)

end Code

open Code

/-- Code that lowering gives is in single-assignment form, and definitions dominate uses. -/
theorem CheckedProgram.lower_dominated {p : CheckedProgram} {name : String} {m : Module}
    (h : p.lower name = .ok m) : ∃ f, m.functions = [f] ∧ f.name = entryName ∧
      (∀ n k j k' j', Assigns f.blocks n k j → Assigns f.blocks n k' j' → k = k' ∧ j = j') ∧
      (∀ n k j, Uses f.blocks (.register n) k j →
        ∃ k' j', Assigns f.blocks n k' j' ∧ (k' < k ∨ k' = k ∧ j' < j)) ∧
      (∀ done n k j, Path f.blocks done k j → Uses f.blocks (.register n) k j →
        ∃ place ∈ done, Assigns f.blocks n place.1 place.2) ∧
      ∀ done k j dest slot ty, Path f.blocks done k j →
        (codeAt f.blocks k)[j]? = some (.load dest slot ty) →
        ∃ place ∈ done, ∃ ty' o,
          (codeAt f.blocks place.1)[place.2]? = some (.store slot ty' o) := by
  obtain ⟨s, ⟨b, known, hd, hready, hs⟩, rfl⟩ :=
    (Script.program_goes p.annotations p.program.statements).lower_eq_ok h
  obtain ⟨start, hagree, hstanding⟩ := hd.standing Builder.initial_ready standing_initial
  have hstart : start 0 = [] := hagree 0 Nat.zero_lt_one
  have hcert : Certified flow start s.builder := by
    rw [hs]
    exact hstanding.certified.terminate hready (List.forall_mem_singleton.2 trivial) nofun
  have hnumbered : s.builder.Numbered := by
    rw [hs]
    exact (hd.numbered Builder.initial_ready Builder.numbered_initial).congr
      (fun k => Builder.terminate_codeAt) (Nat.le_refl _)
  refine ⟨_, rfl, rfl, hnumbered.unique, fun n k j => hcert.assigned_before, ?_, ?_⟩
  · intro done n k j hp hu
    obtain ⟨ty, hty⟩ := hcert.known_of_uses hu
    obtain ⟨place, hplace, i, hi, hgives⟩ := hcert.path hstart hp hty
    exact ⟨place, hplace, i, ty, hi, register_mem_gives.1 hgives⟩
  · intro done k j dest slot ty hp hi
    have hslot := (hcert.instructions k j _ hi).2 dest slot ty rfl
    obtain ⟨place, hplace, i, hi, hgives⟩ := hcert.path hstart hp hslot
    obtain ⟨ty', o, rfl⟩ := slot_mem_gives.1 hgives
    exact ⟨place, hplace, ty', o, hi⟩

/-- The first sum is computed before the branches and used behind them. -/
theorem exists_lower_dominated : ∃ p m f k j,
    checkSource "print 1 + 2 + { if true { } 3; };" "sum" = .ok p ∧
    p.lower "sum" = .ok m ∧ m.functions = [f] ∧
    (codeAt f.blocks 3)[0]? = some (.binary 1 .add .int (.register 0) (.constant (.int 3))) ∧
    Assigns f.blocks 0 k j ∧ k < 3 := by
  have hlower : (checkSource "print 1 + 2 + { if true { } 3; };" "sum").toOption.bind (fun p =>
      (p.lower "sum").toOption.map fun m => m.functions.map fun f => (codeAt f.blocks 3)[0]?) =
      some [some (.binary 1 .add .int (.register 0) (.constant (.int 3)))] := by decide +kernel
  obtain ⟨p, hp, hlower⟩ := Option.bind_eq_some_iff.1 hlower
  obtain ⟨m, hm, hcode⟩ := Option.map_eq_some_iff.1 hlower
  have hm := toOption_eq_some.1 hm
  obtain ⟨f, hf, -, -, hbefore, -⟩ := CheckedProgram.lower_dominated hm
  rw [hf, List.map_singleton, List.singleton_inj] at hcode
  obtain ⟨k, j, hassigns, hlt⟩ := hbefore 0 3 0 (.inl ⟨_, hcode, List.mem_cons_self⟩)
  exact ⟨p, m, f, k, j, toOption_eq_some.1 hp, hm, hf, hcode, hassigns, by omega⟩

end Leveret
