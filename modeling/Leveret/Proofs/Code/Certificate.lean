import Leveret.Proofs.Code.Development

/-!
# Certificates

A certificate says of every block what is known where the block begins, on whichever way it is come
to. The facts that lowering goes by make one: a new block begins with what is known where it is
made.
-/

namespace Leveret.Code

def knownAfter (known : List Fact) (code : List Instruction) : List Fact :=
  known ++ code.flatMap Instruction.gives

/-- With the facts `start` at the beginnings of blocks, all code keeps to the law, and no jump
promises more than is known. -/
structure Certified (law : Law) (start : Nat → List Fact) (b : Builder) : Prop where
  instructions : ∀ k j i, (codeAt b.blocks k)[j]? = some i →
    law.instruction b.slots (knownAfter (start k) ((codeAt b.blocks k).take j)) i
  tests : ∀ k t, endAt b.blocks k = some t → ∀ o ∈ t.operands,
    law.test (knownAfter (start k) (codeAt b.blocks k)) o
  targets : ∀ k t, endAt b.blocks k = some t → ∀ n ∈ t.targets,
    n < b.blocks.size ∧ start n ⊆ knownAfter (start k) (codeAt b.blocks k)
  /-- Registers that a block can count on are written in blocks before it. -/
  origins : ∀ k < b.blocks.size, ∀ n ty, .register n ty ∈ start k →
    ∃ k' < k, ∃ i ∈ codeAt b.blocks k', i.result? = some (n, ty)

/-- The facts are known at the cursor, and loops ask for no more at their targets. -/
structure Standing (law : Law) (start : Nat → List Fact) (b : Builder) (known : List Fact) :
    Prop where
  certified : Certified law start b
  holds : known ⊆ knownAfter (start b.current) (codeAt b.blocks b.current)
  loops : ∀ targets ∈ b.loops, ∀ n, n = targets.header ∨ n = targets.exit →
    n < b.blocks.size ∧ start n ⊆ known

variable {law : Law} {start start' : Nat → List Fact} {b b' b₁ b₂ : Builder}
  {known known' known₁ known₂ : List Fact} {i : Instruction} {t : Terminator} {name : String}

theorem knownAfter_append (known : List Fact) (code code' : List Instruction) :
    knownAfter known (code ++ code') = knownAfter (knownAfter known code) code' := by
  unfold knownAfter
  rw [List.flatMap_append, List.append_assoc]

/-! ## Single changes -/

namespace Certified

theorem congr (h : Certified law start b) (hs : ∀ k < b.blocks.size, start' k = start k) :
    Certified law start' b where
  instructions k j i hi := by
    rw [hs k (lt_of_codeAt hi)]
    exact h.instructions k j i hi
  tests k t ht := by
    rw [hs k (lt_of_endAt ht)]
    exact h.tests k t ht
  targets k t ht n hn := by
    obtain ⟨hlt, hsub⟩ := h.targets k t ht n hn
    rw [hs k (lt_of_endAt ht), hs n hlt]
    exact ⟨hlt, hsub⟩
  origins k hk n ty hn := h.origins k hk n ty (hs k hk ▸ hn)

/-- More slots do no harm, and nothing else in a builder matters but its blocks. -/
theorem of_blocks (h : Certified law start b) (hb : b'.blocks = b.blocks)
    (hs : b.slots.toList <+: b'.slots.toList) : Certified law start b' := by
  obtain ⟨hi, htest, htarget, horigin⟩ := h
  rw [← hb] at hi htest htarget horigin
  refine ⟨fun k j i h => ?_, htest, htarget, horigin⟩
  exact law.instruction_mono hs (List.Subset.refl _) (hi k j i h)

theorem emit (h : Certified law start b) (hb : b.Ready)
    (hi : law.instruction b.slots (knownAfter (start b.current) (codeAt b.blocks b.current)) i) :
    Certified law start (b.emit i) where
  instructions k j i' hi' := by
    rcases Builder.emit_instruction hb hi' with hold | ⟨rfl, rfl, rfl⟩
    · obtain ⟨hj, -⟩ := List.getElem?_eq_some_iff.1 hold
      rw [Builder.emit_take hb (Nat.le_of_lt hj)]
      exact h.instructions k j i' hold
    · rw [Builder.emit_take hb (Nat.le_refl _), List.take_length]
      exact hi
  tests k t ht := by
    rw [Builder.emit_endAt] at ht
    rw [Builder.emit_codeAt hb, if_neg (hb.ne_current ht)]
    exact h.tests k t ht
  targets k t ht n hn := by
    rw [Builder.emit_endAt] at ht
    rw [Builder.emit_codeAt hb, if_neg (hb.ne_current ht), Builder.emit_size]
    exact h.targets k t ht n hn
  origins k hk n ty hn := by
    rw [Builder.emit_size] at hk
    obtain ⟨k', hk', i', hi', hres⟩ := h.origins k hk n ty hn
    refine ⟨k', hk', i', ?_, hres⟩
    rw [Builder.emit_codeAt hb]
    split
    · exact List.mem_append_left _ hi'
    · exact hi'

theorem terminate (h : Certified law start b) (hb : b.Ready)
    (htest : ∀ o ∈ t.operands,
      law.test (knownAfter (start b.current) (codeAt b.blocks b.current)) o)
    (htarget : ∀ n ∈ t.targets, n < b.blocks.size ∧
      start n ⊆ knownAfter (start b.current) (codeAt b.blocks b.current)) :
    Certified law start (b.terminate t) where
  instructions k j i hi := by
    rw [Builder.terminate_codeAt] at hi ⊢
    exact h.instructions k j i hi
  tests k t' ht := by
    rw [Builder.terminate_endAt hb] at ht
    rw [Builder.terminate_codeAt]
    split at ht
    · rename_i hk
      cases ht
      rw [hk]
      exact htest
    · exact h.tests k t' ht
  targets k t' ht := by
    rw [Builder.terminate_endAt hb] at ht
    rw [Builder.terminate_codeAt, Builder.terminate_size]
    split at ht
    · rename_i hk
      cases ht
      rw [hk]
      exact htarget
    · exact h.targets k t' ht
  origins k hk n ty hn := by
    rw [Builder.terminate_size] at hk
    obtain ⟨k', hk', i, hi, hres⟩ := h.origins k hk n ty hn
    refine ⟨k', hk', i, ?_, hres⟩
    rw [Builder.terminate_codeAt]
    exact hi

theorem createBlock (h : Certified law start b)
    (hnew : ∀ n ty, .register n ty ∈ start b.blocks.size →
      ∃ k < b.blocks.size, ∃ i ∈ codeAt b.blocks k, i.result? = some (n, ty)) :
    Certified law start (b.createBlock name).2 where
  instructions k j i hi := by
    rw [Builder.createBlock_codeAt] at hi ⊢
    exact h.instructions k j i hi
  tests k t ht := by
    rw [Builder.createBlock_endAt] at ht
    rw [Builder.createBlock_codeAt]
    exact h.tests k t ht
  targets k t ht n hn := by
    rw [Builder.createBlock_endAt] at ht
    rw [Builder.createBlock_codeAt, Builder.createBlock_size]
    obtain ⟨hlt, hsub⟩ := h.targets k t ht n hn
    exact ⟨Nat.lt_succ_of_lt hlt, hsub⟩
  origins k hk n ty hn := by
    rw [Builder.createBlock_size] at hk
    have horigin : ∃ k' < k, ∃ i ∈ codeAt b.blocks k', i.result? = some (n, ty) := by
      rcases Nat.lt_succ_iff_lt_or_eq.1 hk with hlt | rfl
      · exact h.origins k hlt n ty hn
      · exact hnew n ty hn
    obtain ⟨k', hk', i, hi, hres⟩ := horigin
    refine ⟨k', hk', i, ?_, hres⟩
    rw [Builder.createBlock_codeAt]
    exact hi

end Certified

/-! ## Steps from place to place -/

def extendTo (start : Nat → List Fact) (size : Nat) (known : List Fact) (k : Nat) : List Fact :=
  if k < size then start k else known

namespace Standing

theorem written (h : Standing law start b known) (hb : b.Ready) {n : Nat} {ty : Ty}
    (hn : .register n ty ∈ known) :
    ∃ k < b.blocks.size, ∃ i ∈ codeAt b.blocks k, i.result? = some (n, ty) := by
  rcases List.mem_append.1 (h.holds hn) with hstart | hcode
  · obtain ⟨k, hk, hi⟩ := h.certified.origins b.current hb.lt n ty hstart
    exact ⟨k, Nat.lt_trans hk hb.lt, hi⟩
  · obtain ⟨i, hi, hgives⟩ := List.mem_flatMap.1 hcode
    exact ⟨b.current, hb.lt, i, hi, register_mem_gives.1 hgives⟩

theorem emit (h : Standing law start b known) (hb : b.Ready)
    (hi : law.instruction b.slots known i) (hk : known ⊆ known')
    (hk' : known' ⊆ known ++ i.gives) : Standing law start (b.emit i) known' where
  certified := h.certified.emit hb (law.instruction_mono (List.prefix_refl _) h.holds hi)
  holds := by
    change _ ⊆ knownAfter (start b.current) (codeAt (b.emit i).blocks b.current)
    rw [Builder.emit_codeAt hb, if_pos rfl, knownAfter_append]
    refine List.Subset.trans hk' ?_
    rw [knownAfter, List.flatMap_singleton]
    exact List.append_subset.2 ⟨List.Subset.trans h.holds (List.subset_append_left _ _),
      List.subset_append_right _ _⟩
  loops targets ht n hn := by
    obtain ⟨hlt, hsub⟩ := h.loops targets ht n hn
    rw [Builder.emit_size]
    exact ⟨hlt, List.Subset.trans hsub hk⟩

theorem turn {loops : List LoopTargets} {k : Nat} (h : Standing law start b known) (hb : b.Ready)
    (htest : ∀ o ∈ t.operands, law.test known o)
    (htarget : ∀ n ∈ t.targets, n < b.blocks.size ∧ start n ⊆ known)
    (hk : codeAt b.blocks k = []) (hstart : start k = known')
    (hloops : ∀ targets ∈ loops, ∀ n, n = targets.header ∨ n = targets.exit →
      n < b.blocks.size ∧ start n ⊆ known') :
    Standing law start { (b.terminate t).goTo k with loops } known' where
  certified := by
    have hterm := h.certified.terminate hb (fun o ho => law.test_mono h.holds (htest o ho))
      fun n hn => ⟨(htarget n hn).1, List.Subset.trans (htarget n hn).2 h.holds⟩
    exact hterm.of_blocks rfl (List.prefix_refl _)
  holds := by
    change known' ⊆ knownAfter (start k) (codeAt (b.terminate t).blocks k)
    rw [Builder.terminate_codeAt, hk, hstart]
    exact List.subset_append_left _ _
  loops targets ht n hn := by
    change n < (b.terminate t).blocks.size ∧ _
    rw [Builder.terminate_size]
    exact hloops targets ht n hn

theorem createBlock (h : Standing law start b known) (hb : b.Ready)
    (hstart : start b.blocks.size = known) : Standing law start (b.createBlock name).2 known where
  certified := h.certified.createBlock fun n ty hn => h.written hb (hstart ▸ hn)
  holds := by
    change known ⊆ knownAfter (start b.current) (codeAt (b.createBlock name).2.blocks b.current)
    rw [Builder.createBlock_codeAt]
    exact h.holds
  loops targets ht n hn := by
    rw [Builder.createBlock_size]
    exact ⟨Nat.lt_succ_of_lt (h.loops targets ht n hn).1, (h.loops targets ht n hn).2⟩

theorem congr (h : Standing law start b known) (hb : b.Ready)
    (hs : ∀ k < b.blocks.size, start' k = start k) : Standing law start' b known where
  certified := h.certified.congr hs
  holds := by
    rw [hs _ hb.lt]
    exact h.holds
  loops targets ht n hn := by
    obtain ⟨hlt, hsub⟩ := h.loops targets ht n hn
    exact ⟨hlt, hs n hlt ▸ hsub⟩

theorem jump {targets : LoopTargets} {rest : List LoopTargets} {target : Nat}
    (h : Standing law start b known) (hb : b.Ready) (hl : b.loops = targets :: rest)
    (ht : target = targets.header ∨ target = targets.exit) :
    Standing law (extendTo start b.blocks.size known) (b.jump (.br target)) known := by
  have hs : ∀ k < b.blocks.size, extendTo start b.blocks.size known k = start k :=
    fun k hk => if_pos hk
  have hnew : extendTo start b.blocks.size known b.blocks.size = known :=
    if_neg (Nat.lt_irrefl _)
  have h := h.congr hb hs
  have hloop := h.loops targets (hl ▸ List.mem_cons_self) target ht
  have hterm := h.certified.terminate (t := .br target) hb nofun
    (List.forall_mem_singleton.2 ⟨hloop.1, List.Subset.trans hloop.2 h.holds⟩)
  have hsize : (b.terminate (.br target)).blocks.size = b.blocks.size := Builder.terminate_size
  have hwritten (n : Nat) (ty : Ty) (hn : .register n ty ∈
      extendTo start b.blocks.size known (b.terminate (.br target)).blocks.size) :
      ∃ k < (b.terminate (.br target)).blocks.size,
        ∃ i ∈ codeAt (b.terminate (.br target)).blocks k, i.result? = some (n, ty) := by
    rw [hsize, hnew] at hn
    simp only [Builder.terminate_codeAt, hsize]
    exact h.written hb hn
  refine ⟨(hterm.createBlock hwritten).of_blocks rfl (List.prefix_refl _), ?_,
    fun targets' ht' n hn => ?_⟩
  · change known ⊆ knownAfter (extendTo start b.blocks.size known (b.terminate _).blocks.size) _
    rw [hsize, hnew]
    exact List.subset_append_left _ _
  · obtain ⟨hlt, hsub⟩ := h.loops targets' ht' n hn
    rw [Builder.jump_size]
    exact ⟨Nat.lt_succ_of_lt hlt, hsub⟩

/-! ## Forks -/

theorem fork {x y z : String} (h : Standing law start b known) (hb : b.Ready) :
    Standing law (extendTo start b.blocks.size known) (b.fork x y z) known := by
  have hs : ∀ k < b.blocks.size, extendTo start b.blocks.size known k = start k :=
    fun k hk => if_pos hk
  have hnew : ∀ k, b.blocks.size ≤ k → extendTo start b.blocks.size known k = known :=
    fun k hk => if_neg (Nat.not_lt_of_le hk)
  have h := h.congr hb hs
  have hrx := Builder.createBlock_ready x hb
  have hry := Builder.createBlock_ready y hrx
  refine ((h.createBlock hb (hnew _ ?_)).createBlock hrx (hnew _ ?_)).createBlock hry (hnew _ ?_)
  · exact Nat.le_refl _
  · rw [Builder.createBlock_size]
    omega
  · rw [Builder.createBlock_size, Builder.createBlock_size]
    omega

section Fork

variable {x y z : String} {t₀ t₁ t₂ : Terminator} {loops : List LoopTargets}

theorem forked (h : Standing law start b known) (hb : b.Ready)
    (hg₁ : (b.forkFirst x y z t₀).Grown b₁) (hg₂ : (b.forkSecond b₁ t₁ loops).Grown b₂)
    (hk₁ : known ⊆ known₁) (hk₂ : known ⊆ known₂)
    (ih₁ : ∀ start, Standing law start (b.forkFirst x y z t₀) known →
      ∃ start', (∀ k < (b.forkFirst x y z t₀).blocks.size, start' k = start k) ∧
        Standing law start' b₁ known₁)
    (ih₂ : ∀ start, Standing law start (b.forkSecond b₁ t₁ loops) known →
      ∃ start', (∀ k < (b.forkSecond b₁ t₁ loops).blocks.size, start' k = start k) ∧
        Standing law start' b₂ known₂)
    (htest₀ : ∀ o ∈ t₀.operands, law.test known o) (ht₀ : ∀ n ∈ t₀.targets, b.InFork n)
    (htest₁ : ∀ o ∈ t₁.operands, law.test known₁ o) (ht₁ : ∀ n ∈ t₁.targets, b.InFork n)
    (htest₂ : ∀ o ∈ t₂.operands, law.test known₂ o) (ht₂ : ∀ n ∈ t₂.targets, b.InFork n)
    (hloops : ∀ targets ∈ loops,
      targets ∈ b.loops ∨ b.InFork targets.header ∧ b.InFork targets.exit) :
    ∃ start', (∀ k < b.blocks.size, start' k = start k) ∧
      Standing law start' (b.forkLast b₂ t₂) known := by
  have hsize₁ : b.blocks.size + 3 ≤ b₁.blocks.size := by
    rw [← Builder.forkFirst_size]
    exact hg₁.within.blocks.size
  have hsize₂ : b₁.blocks.size ≤ b₂.blocks.size := by
    rw [← Builder.forkSecond_size]
    exact hg₂.within.blocks.size
  -- all three new blocks begin with what is known before the fork
  have hfirst : Standing law (extendTo start b.blocks.size known) (b.forkFirst x y z t₀) known := by
    have hfork : Standing law _ (b.fork x y z) known := h.fork hb
    refine hfork.turn (Builder.fork_ready hb) htest₀ (fun n hn => ?_)
      (Builder.fork_fresh (Nat.le_refl _) (by omega)).codeAt (if_neg (Nat.lt_irrefl _)) hfork.loops
    obtain ⟨hle, hlt⟩ := ht₀ n hn
    rw [Builder.fork_size, extendTo, if_neg (Nat.not_lt_of_le hle)]
    exact ⟨hlt, List.Subset.refl _⟩
  obtain ⟨start₁, hagree₁, hs₁⟩ := ih₁ _ hfirst
  rw [Builder.forkFirst_size] at hagree₁
  have hold₁ (k : Nat) (hk : k < b.blocks.size) : start₁ k = start k :=
    (hagree₁ k (by omega)).trans (if_pos hk)
  have hin₁ (k : Nat) (hk : b.InFork k) : start₁ k = known :=
    (hagree₁ k hk.2).trans (if_neg (Nat.not_lt_of_le hk.1))
  -- what the first part has seen to is left out here, as other ways lead to the second part
  have hsecond : Standing law start₁ (b.forkSecond b₁ t₁ loops) known := by
    have hwaits : b₁.Waits (b.blocks.size + 1) :=
      (Builder.forkFirst_waits hb (by omega) (by omega)).grown hg₁
    refine hs₁.turn hg₁.ready htest₁ (fun n hn => ?_) hwaits.1.codeAt
      (hin₁ _ ⟨Nat.le_succ _, by omega⟩) fun targets ht n hn => ?_
    · have hn := ht₁ n hn
      exact ⟨Nat.lt_of_lt_of_le hn.2 hsize₁, hin₁ n hn ▸ hk₁⟩
    · rcases hloops targets ht with ht | ⟨hheader, hexit⟩
      · obtain ⟨hlt, hsub⟩ := h.loops targets ht n hn
        exact ⟨by omega, hold₁ n hlt ▸ hsub⟩
      · have hn : b.InFork n := by
          rcases hn with rfl | rfl
          · exact hheader
          · exact hexit
        exact ⟨Nat.lt_of_lt_of_le hn.2 hsize₁, hin₁ n hn ▸ List.Subset.refl _⟩
  obtain ⟨start₂, hagree₂, hs₂⟩ := ih₂ _ hsecond
  rw [Builder.forkSecond_size] at hagree₂
  have hin₂ (k : Nat) (hk : b.InFork k) : start₂ k = known :=
    (hagree₂ k (Nat.lt_of_lt_of_le hk.2 hsize₁)).trans (hin₁ k hk)
  have hold₂ (k : Nat) (hk : k < b.blocks.size) : start₂ k = start k :=
    (hagree₂ k (by omega)).trans (hold₁ k hk)
  refine ⟨start₂, hold₂, ?_⟩
  have hwaits : b₂.Waits (b.blocks.size + 2) := (Builder.forkSecond_waits hb hg₁).grown hg₂
  refine hs₂.turn hg₂.ready htest₂ (fun n hn => ?_) hwaits.1.codeAt
    (hin₂ _ ⟨Nat.le_add_right _ _, by omega⟩) fun targets ht n hn => ?_
  · have hn := ht₂ n hn
    exact ⟨Nat.lt_of_lt_of_le hn.2 (Nat.le_trans hsize₁ hsize₂), hin₂ n hn ▸ hk₂⟩
  · obtain ⟨hlt, hsub⟩ := h.loops targets ht n hn
    exact ⟨by omega, hold₂ n hlt ▸ hsub⟩

end Fork

end Standing

theorem standing_initial : Standing law (fun _ => []) .initial [] where
  certified := by
    refine ⟨fun k j i h => ?_, fun k t h => ?_, fun k t h => ?_, nofun⟩
    · rw [Builder.initial_codeAt] at h
      cases h
    · rw [Builder.initial_endAt] at h
      cases h
    · rw [Builder.initial_endAt] at h
      cases h
  holds := nofun
  loops := nofun

/-- Code that developed in keeping with a law has a certificate for it. -/
theorem Develops.standing (h : Develops law b known b' known') (hb : b.Ready)
    (hs : Standing law start b known) :
    ∃ start', (∀ k < b.blocks.size, start' k = start k) ∧ Standing law start' b' known' := by
  induction h generalizing start with
  | refl => exact ⟨start, fun _ _ => rfl, hs⟩
  | trans h _ ih ih' =>
    have hg := h.grown hb
    obtain ⟨start₁, hagree₁, hs₁⟩ := ih hb hs
    obtain ⟨start₂, hagree₂, hs₂⟩ := ih' hg.ready hs₁
    refine ⟨start₂, fun k hk => ?_, hs₂⟩
    rw [hagree₂ k (Nat.lt_of_lt_of_le hk hg.within.blocks.size), hagree₁ k hk]
  | @compute b known i ty hi hl =>
    have hfresh : Standing law start b.freshRegister.2 known :=
      ⟨hs.certified.of_blocks rfl (List.prefix_refl _), hs.holds, hs.loops⟩
    exact ⟨start, fun _ _ => rfl, hfresh.emit hb hl (List.subset_cons_self _ _) (by simp [hi])⟩
  | @declare b known name ty o hl =>
    have hslots : b.slots.toList <+: (b.allocateSlot name ty).2.slots.toList :=
      (Builder.allocateSlot_grown hb).within.slots
    have hslot : Standing law start (b.allocateSlot name ty).2 known :=
      ⟨hs.certified.of_blocks rfl hslots, hs.holds, hs.loops⟩
    refine ⟨start, fun _ _ => rfl, hslot.emit hb hl (List.subset_cons_self _ _) ?_⟩
    simp [Instruction.gives]
  | perform hi hl =>
    exact ⟨start, fun _ _ => rfl, hs.emit hb hl (List.Subset.refl _) (List.subset_append_left _ _)⟩
  | jump hl ht => exact ⟨_, fun k hk => if_pos hk, hs.jump hb hl ht⟩
  | branch ho h₁ h₂ ih₁ ih₂ =>
    have hg₁ := h₁.grown (Builder.forkFirst_ready hb)
    have hg₂ := h₂.grown (Builder.forkSecond_ready hb hg₁)
    refine hs.forked hb hg₁ hg₂ h₁.subset h₂.subset (fun _ => ih₁ (Builder.forkFirst_ready hb))
      (fun _ => ih₂ (Builder.forkSecond_ready hb hg₁)) (List.forall_mem_singleton.2 ho) ?_
      (List.forall_mem_nil _) ?_ (List.forall_mem_nil _) ?_ fun targets ht => .inl ht
    all_goals simp [Terminator.targets, Builder.InFork]
  | loop h₁ ho h₂ ih₁ ih₂ =>
    have hg₁ := h₁.grown (Builder.forkFirst_ready hb)
    have hg₂ := h₂.grown (Builder.forkSecond_ready hb hg₁)
    refine hs.forked hb hg₁ hg₂ h₁.subset h₂.subset (fun _ => ih₁ (Builder.forkFirst_ready hb))
      (fun _ => ih₂ (Builder.forkSecond_ready hb hg₁)) (List.forall_mem_nil _) ?_
      (List.forall_mem_singleton.2 ho) ?_ (List.forall_mem_nil _) ?_
      (List.forall_mem_cons.2 ⟨.inr ?_, fun targets ht => .inl ht⟩)
    all_goals simp [Terminator.targets, Builder.InFork]

end Leveret.Code
