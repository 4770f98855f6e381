import Leveret.Pipeline
import Leveret.Proofs.Code.Blocks
import Leveret.Proofs.Code.Flow
import Leveret.Proofs.Digits

/-!
# Integrity of the code

At every moment of lowering, whatever the tree and its annotations, all numbers that the state
holds are in range and only open blocks are written to. In the finished function every block has
its end, and the ends lead to blocks that are meant to be led to.
-/

namespace Leveret

namespace Code

open Lowering

/-! ## Every moment of a script -/

/-- All numbers in the state are of blocks and slots that exist. -/
structure Sane (s : State) : Prop where
  cursor : s.builder.current < s.builder.blocks.size
  slots : ∀ slot ∈ s.scopes.records, slot < s.builder.slots.size
  loops : ∀ targets ∈ s.builder.loops,
    targets.header < s.builder.blocks.size ∧ targets.exit < s.builder.blocks.size

theorem sane_initial : Sane .initial := ⟨Nat.zero_lt_one, nofun, nofun⟩

theorem Sane.of_le {s : State} {b : Builder} (h : Sane s)
    (hb : s.builder.blocks.size ≤ b.blocks.size) (hs : s.builder.slots.size ≤ b.slots.size)
    (hc : b.current = s.builder.current) (hl : b.loops = s.builder.loops) :
    Sane { s with builder := b } where
  cursor := by
    have hlt := h.cursor
    change b.current < b.blocks.size
    omega
  slots slot hslot := Nat.lt_of_lt_of_le (h.slots slot hslot) hs
  loops targets ht := by
    change targets ∈ b.loops at ht
    rw [hl] at ht
    have hlt := h.loops targets ht
    exact ⟨Nat.lt_of_lt_of_le hlt.1 hb, Nat.lt_of_lt_of_le hlt.2 hb⟩

theorem Sane.apply {s : State} {e : Edit} (h : Sane s) (ha : e.Allowed s) : Sane (e.apply s) := by
  cases e with
  | createBlock name =>
    exact h.of_le (Nat.le_of_lt (Builder.createBlock_fresh name).lt) (Nat.le_refl _) rfl rfl
  | goTo block => exact ⟨ha, h.slots, h.loops⟩
  | emit i =>
    exact h.of_le (Nat.le_of_eq Builder.emit_size.symm) (Nat.le_refl _) rfl rfl
  | terminate t =>
    exact h.of_le (Nat.le_of_eq Builder.terminate_size.symm) (Nat.le_refl _) rfl rfl
  | freshRegister => exact h.of_le (Nat.le_refl _) (Nat.le_refl _) rfl rfl
  | allocateSlot name ty =>
    have hsize : (s.builder.allocateSlot name ty).2.slots.size = s.builder.slots.size + 1 :=
      Array.size_push _
    exact h.of_le (Nat.le_refl _) (by omega) rfl rfl
  | enterLoop targets => exact ⟨h.cursor, h.slots, List.forall_mem_cons.2 ⟨ha, h.loops⟩⟩
  | leaveLoop =>
    exact ⟨h.cursor, h.slots, fun targets ht => h.loops targets (List.mem_of_mem_tail ht)⟩
  | pushFrame => exact ⟨h.cursor, h.slots, h.loops⟩
  | popFrame =>
    refine ⟨h.cursor, fun slot hslot => h.slots slot ?_, h.loops⟩
    obtain ⟨frame, hframe, hslot⟩ := List.mem_flatMap.1 hslot
    exact List.mem_flatMap.2 ⟨frame, List.mem_of_mem_tail hframe, hslot⟩
  | declare name slot =>
    cases hd : s.scopes.declare name slot with
    | error _ =>
      dsimp only [Edit.apply]
      rw [hd]
      exact h
    | ok scopes =>
      rw [Edit.apply_declare hd]
      refine ⟨h.cursor, fun slot' hslot => ?_, h.loops⟩
      rw [(Chain.declare_eq_ok.1 hd).records, List.mem_cons] at hslot
      rcases hslot with rfl | hslot
      · exact ha
      · exact h.slots slot' hslot

theorem Orderly.sane {s : State} {before after : List Edit} (h : Orderly s (before ++ after))
    (hs : Sane s) : Sane (replay s before) := by
  induction before generalizing s with
  | nil => exact hs
  | cons e before ih => exact ih h.2 (hs.apply h.1)

theorem Orderly.writes {s : State} {before after : List Edit} {e : Edit}
    (h : Orderly s (before ++ e :: after)) (he : e.writes = true) :
    (replay s before).builder.isTerminated = false := by
  induction before generalizing s with
  | nil =>
    cases e with
    | emit | terminate => exact h.1
    | _ => cases he
  | cons e before ih => exact ih h.2

/-! ## Labels -/

theorem labelFor_inj {name name' : String} {k k' : Nat} (hn : '.' ∉ name.toList)
    (hn' : '.' ∉ name'.toList) (h : Builder.labelFor name k = Builder.labelFor name' k') :
    name = name' ∧ k = k' := by
  have hdot {n : String} (h : '.' ∉ n.toList) : ∀ c ∈ n.toList, (c != '.') = true := by
    rintro c hc
    rw [bne_iff_ne]
    rintro rfl
    exact h hc
  have h := congrArg String.toList h
  unfold Builder.labelFor at h
  split at h <;> split at h
  · exact ⟨String.toList_injective h, by omega⟩
  · simp [h] at hn
  · simp [← h] at hn'
  · simp only [String.toList_append, List.append_assoc, String.toList_ofList] at h
    have hleft := congrArg (List.takeWhile (· != '.')) h
    have hright := congrArg (List.dropWhile (· != '.')) h
    rw [Text.takeWhile_of_break (hdot hn) (by simp), Text.takeWhile_of_break (hdot hn') (by simp)]
      at hleft
    rw [Text.dropWhile_of_break (hdot hn) (by simp), Text.dropWhile_of_break (hdot hn') (by simp)]
      at hright
    have hdigits := congrArg (Text.digitsValue 0) (List.append_cancel_left hright)
    rw [Text.digitsValue_writeNatural, Text.digitsValue_writeNatural] at hdigits
    exact ⟨String.toList_injective hleft, hdigits⟩

def enteredNames : List String := ["then", "else", "merge", "header", "body", "exit"]

def blockNames : List String := "entry" :: "unreachable" :: enteredNames

theorem dot_not_mem_of_mem_blockNames : ∀ name ∈ blockNames, '.' ∉ name.toList := by decide

/-! ## Where code leads -/

namespace Builder

def Entered (b : Builder) (k : Nat) : Prop :=
  0 < k ∧ ∃ name ∈ enteredNames, labelAt b.blocks k = some (labelFor name k)

/-- Labels are as they are made, and what has an end leads to blocks that are meant for it. -/
structure Charted (b : Builder) : Prop where
  labels : ∀ k label, labelAt b.blocks k = some label → ∃ name ∈ blockNames, label = labelFor name k
  ends : ∀ k t, endAt b.blocks k = some t → (∀ v, t ≠ .ret v) ∧ ∀ n ∈ t.targets, b.Entered n
  loops : ∀ targets ∈ b.loops, b.Entered targets.header ∧ b.Entered targets.exit

variable {b b' : Builder} {i : Instruction} {t : Terminator} {name : String} {k : Nat}

theorem Entered.of_labels (h : b.Entered k) (hl : labelAt b'.blocks k = labelAt b.blocks k) :
    b'.Entered k := ⟨h.1, by rw [hl]; exact h.2⟩

theorem Entered.createBlock (h : b.Entered k) : (b.createBlock name).2.Entered k := by
  refine h.of_labels ?_
  obtain ⟨-, name', -, hlabel⟩ := h
  rw [createBlock_labelAt, if_neg (Nat.ne_of_lt (lt_of_labelAt hlabel))]

theorem Charted.congr (h : b.Charted) (hl : ∀ k, labelAt b'.blocks k = labelAt b.blocks k)
    (he : ∀ k, endAt b'.blocks k = endAt b.blocks k) (hloops : b'.loops = b.loops) :
    b'.Charted where
  labels k label hlabel := h.labels k label (hl k ▸ hlabel)
  ends k t ht := by
    rw [he] at ht
    obtain ⟨hret, htargets⟩ := h.ends k t ht
    exact ⟨hret, fun n hn => (htargets n hn).of_labels (hl n)⟩
  loops targets ht := by
    rw [hloops] at ht
    obtain ⟨hheader, hexit⟩ := h.loops targets ht
    exact ⟨hheader.of_labels (hl _), hexit.of_labels (hl _)⟩

theorem Charted.emit (h : b.Charted) : (b.emit i).Charted :=
  h.congr (fun _ => emit_labelAt) (fun _ => emit_endAt) rfl

theorem Charted.createBlock (h : b.Charted) (hn : name ∈ blockNames) :
    (b.createBlock name).2.Charted where
  labels k label hlabel := by
    rw [createBlock_labelAt] at hlabel
    split at hlabel
    · cases hlabel
      exact ⟨name, hn, rfl⟩
    · exact h.labels k label hlabel
  ends k t ht := by
    rw [createBlock_endAt] at ht
    obtain ⟨hret, htargets⟩ := h.ends k t ht
    exact ⟨hret, fun n hn => (htargets n hn).createBlock⟩
  loops targets ht := ⟨(h.loops targets ht).1.createBlock, (h.loops targets ht).2.createBlock⟩

theorem Charted.terminate (h : b.Charted) (hb : b.Ready) (hret : ∀ v, t ≠ .ret v)
    (ht : ∀ n ∈ t.targets, b.Entered n) : (b.terminate t).Charted where
  labels k label hlabel := h.labels k label (terminate_labelAt ▸ hlabel)
  ends k t' ht' := by
    rw [terminate_endAt hb] at ht'
    split at ht'
    · cases ht'
      exact ⟨hret, fun n hn => (ht n hn).of_labels terminate_labelAt⟩
    · obtain ⟨hret', htargets⟩ := h.ends k t' ht'
      exact ⟨hret', fun n hn => (htargets n hn).of_labels terminate_labelAt⟩
  loops targets ht := by
    obtain ⟨hheader, hexit⟩ := h.loops targets ht
    exact ⟨hheader.of_labels terminate_labelAt, hexit.of_labels terminate_labelAt⟩

/-! ## Forks -/

section Fork

variable {x y z : String} {t₀ t₁ t₂ : Terminator} {loops : List LoopTargets} {b₁ b₂ : Builder}

theorem fork_labelAt : labelAt (b.fork x y z).blocks k =
    if k = b.blocks.size + 2 then some (labelFor z k)
    else if k = b.blocks.size + 1 then some (labelFor y k)
    else if k = b.blocks.size then some (labelFor x k) else labelAt b.blocks k := by
  rw [fork, createBlock_labelAt, createBlock_labelAt, createBlock_labelAt, createBlock_size,
    createBlock_size]

variable (hb : b.Ready) (hx : x ∈ enteredNames) (hy : y ∈ enteredNames) (hz : z ∈ enteredNames)

include hb hx hy hz in
theorem fork_entered (hk : b.InFork k) : (b.fork x y z).Entered k := by
  obtain ⟨hle, hlt⟩ := hk
  refine ⟨Nat.lt_of_lt_of_le (Nat.zero_lt_of_lt hb.lt) hle, ?_⟩
  rw [fork_labelAt]
  split
  · exact ⟨z, hz, rfl⟩
  split
  · exact ⟨y, hy, rfl⟩
  · rw [if_pos (by omega)]
    exact ⟨x, hx, rfl⟩

theorem Entered.fork (h : b.Entered k) : (b.fork x y z).Entered k :=
  h.createBlock.createBlock.createBlock

include hx hy hz in
theorem Charted.fork (h : b.Charted) : (b.fork x y z).Charted := by
  have hmem {name : String} (hn : name ∈ enteredNames) : name ∈ blockNames :=
    List.mem_cons_of_mem _ (List.mem_cons_of_mem _ hn)
  exact ((h.createBlock (hmem hx)).createBlock (hmem hy)).createBlock (hmem hz)

include hb hx hy hz in
/-- A fork is charted once its parts are, whatever they hold. -/
theorem Charted.forkLast (h : b.Charted) (hr₁ : b₁.Ready) (hr₂ : b₂.Ready)
    (h₁ : (b.forkFirst x y z t₀).Charted →
      b₁.Charted ∧ ∀ k, (b.forkFirst x y z t₀).Entered k → b₁.Entered k)
    (h₂ : (b.forkSecond b₁ t₁ loops).Charted →
      b₂.Charted ∧ ∀ k, (b.forkSecond b₁ t₁ loops).Entered k → b₂.Entered k)
    (hret₀ : ∀ v, t₀ ≠ .ret v) (ht₀ : ∀ n ∈ t₀.targets, b.InFork n)
    (hret₁ : ∀ v, t₁ ≠ .ret v) (ht₁ : ∀ n ∈ t₁.targets, b.InFork n)
    (hret₂ : ∀ v, t₂ ≠ .ret v) (ht₂ : ∀ n ∈ t₂.targets, b.InFork n)
    (hloops : ∀ targets ∈ loops,
      targets ∈ b.loops ∨ b.InFork targets.header ∧ b.InFork targets.exit) :
    (b.forkLast b₂ t₂).Charted ∧ ∀ k, b.Entered k → (b.forkLast b₂ t₂).Entered k := by
  have hfirst : (b.forkFirst x y z t₀).Charted := by
    have hterm := (h.fork hx hy hz).terminate (fork_ready hb) hret₀
      fun n hn => fork_entered hb hx hy hz (ht₀ n hn)
    exact ⟨hterm.labels, hterm.ends, hterm.loops⟩
  obtain ⟨hc₁, he₁⟩ := h₁ hfirst
  have henter₁ {k : Nat} (hk : (b.fork x y z).Entered k) : b₁.Entered k :=
    he₁ k (hk.of_labels terminate_labelAt)
  have hin₁ {k : Nat} (hk : b.InFork k) : b₁.Entered k := henter₁ (fork_entered hb hx hy hz hk)
  have hsecond : (b.forkSecond b₁ t₁ loops).Charted := by
    have hterm := hc₁.terminate hr₁ hret₁ fun n hn => hin₁ (ht₁ n hn)
    refine ⟨hterm.labels, hterm.ends, fun targets ht => ?_⟩
    have htargets : b₁.Entered targets.header ∧ b₁.Entered targets.exit := by
      rcases hloops targets ht with hold | hnew
      · exact ⟨henter₁ (h.loops targets hold).1.fork, henter₁ (h.loops targets hold).2.fork⟩
      · exact ⟨hin₁ hnew.1, hin₁ hnew.2⟩
    exact ⟨htargets.1.of_labels terminate_labelAt, htargets.2.of_labels terminate_labelAt⟩
  obtain ⟨hc₂, he₂⟩ := h₂ hsecond
  have henter₂ {k : Nat} (hk : b₁.Entered k) : b₂.Entered k :=
    he₂ k (hk.of_labels terminate_labelAt)
  have hback (k : Nat) (hk : b.Entered k) : b₂.Entered k := henter₂ (henter₁ hk.fork)
  have hinner : { b₂ with loops := b.loops }.Charted :=
    ⟨hc₂.labels, hc₂.ends, fun targets ht =>
      ⟨hback _ (h.loops targets ht).1, hback _ (h.loops targets ht).2⟩⟩
  have hterm := hinner.terminate hr₂ hret₂ fun n hn => henter₂ (hin₁ (ht₂ n hn))
  exact ⟨⟨hterm.labels, hterm.ends, hterm.loops⟩,
    fun k hk => (hback k hk).of_labels terminate_labelAt⟩

end Fork

end Builder

namespace Develops

variable {law : Law} {b b' : Builder} {known known' : List Fact}

theorem charted (h : Develops law b known b' known') (hb : b.Ready) (hc : b.Charted) :
    b'.Charted ∧ ∀ k, b.Entered k → b'.Entered k := by
  induction h with
  | refl => exact ⟨hc, fun _ hk => hk⟩
  | trans h _ ih ih' =>
    obtain ⟨hc₁, he₁⟩ := ih hb hc
    obtain ⟨hc₂, he₂⟩ := ih' (h.grown hb).ready hc₁
    exact ⟨hc₂, fun k hk => he₂ k (he₁ k hk)⟩
  | @compute b =>
    have hfresh : b.freshRegister.2.Charted := ⟨hc.labels, hc.ends, hc.loops⟩
    exact ⟨hfresh.emit, fun _ hk => hk.of_labels Builder.emit_labelAt⟩
  | @declare b _ name ty =>
    have hslot : (b.allocateSlot name ty).2.Charted := ⟨hc.labels, hc.ends, hc.loops⟩
    exact ⟨hslot.emit, fun _ hk => hk.of_labels Builder.emit_labelAt⟩
  | perform => exact ⟨hc.emit, fun _ hk => hk.of_labels Builder.emit_labelAt⟩
  | @jump b _ targets rest target hl ht =>
    have hloop := hc.loops targets (hl ▸ List.mem_cons_self)
    have htarget : b.Entered target := by
      rcases ht with rfl | rfl
      · exact hloop.1
      · exact hloop.2
    have hterm : (b.terminate (.br target)).Charted :=
      hc.terminate hb nofun (List.forall_mem_singleton.2 htarget)
    have hdead : ((b.terminate (.br target)).createBlock "unreachable").2.Charted :=
      hterm.createBlock (by decide)
    exact ⟨⟨hdead.labels, hdead.ends, hdead.loops⟩,
      fun _ hk => (hk.of_labels Builder.terminate_labelAt).createBlock⟩
  | branch _ h₁ h₂ ih₁ ih₂ =>
    have hg₁ := h₁.grown (Builder.forkFirst_ready hb)
    have hg₂ := h₂.grown (Builder.forkSecond_ready hb hg₁)
    refine hc.forkLast hb (by decide) (by decide) (by decide) hg₁.ready hg₂.ready
      (ih₁ (Builder.forkFirst_ready hb)) (ih₂ (Builder.forkSecond_ready hb hg₁))
      nofun ?_ nofun ?_ nofun ?_ fun targets ht => .inl ht
    all_goals simp [Terminator.targets, Builder.InFork]
  | loop h₁ _ h₂ ih₁ ih₂ =>
    have hg₁ := h₁.grown (Builder.forkFirst_ready hb)
    have hg₂ := h₂.grown (Builder.forkSecond_ready hb hg₁)
    refine hc.forkLast hb (by decide) (by decide) (by decide) hg₁.ready hg₂.ready
      (ih₁ (Builder.forkFirst_ready hb)) (ih₂ (Builder.forkSecond_ready hb hg₁))
      nofun ?_ nofun ?_ nofun ?_ (List.forall_mem_cons.2 ⟨.inr ?_, fun targets ht => .inl ht⟩)
    all_goals simp [Terminator.targets, Builder.InFork]

end Develops

/-! ## Blocks that are done -/

namespace Builder

/-- What was made from `b` to `b'` has its end, but for the block that is being filled. -/
def Closes (b b' : Builder) : Prop :=
  ∀ k, k = b.current ∨ b.blocks.size ≤ k → k < b'.blocks.size → k ≠ b'.current →
    ∃ t, endAt b'.blocks k = some t

variable {b b' b'' b₁ b₂ : Builder} {t t₀ t₁ t₂ : Terminator} {x y z : String}
  {loops : List LoopTargets}

theorem Closes.of_size (hs : b'.blocks.size = b.blocks.size) (hc : b'.current = b.current) :
    Closes b b' := by
  intro k hk hlt hne
  omega

theorem Closes.trans (h : Closes b b') (h' : Closes b' b'')
    (he : Extends b'.blocks b''.blocks) : Closes b b'' := by
  intro k hk hlt hne
  by_cases hold : k < b'.blocks.size
  · by_cases hc : k = b'.current
    · exact h' k (.inl hc) hlt hne
    · obtain ⟨t, ht⟩ := h k hk hold hc
      exact ⟨t, he.endAt ht⟩
  · exact h' k (.inr (Nat.le_of_not_lt hold)) hlt hne

theorem jump_closes (hb : b.Ready) : Closes b (b.jump t) := by
  intro k hk hlt hne
  have hsize : (b.jump t).blocks.size = b.blocks.size + 1 := jump_size
  have hcursor : (b.jump t).current = b.blocks.size := terminate_size
  obtain rfl : k = b.current := by omega
  exact ⟨t, (jump_leaves hb).endAt⟩

theorem Closes.forkLast (hb : b.Ready) (hg₁ : Grown (b.forkFirst x y z t₀) b₁)
    (hg₂ : Grown (b.forkSecond b₁ t₁ loops) b₂) (h₁ : Closes (b.forkFirst x y z t₀) b₁)
    (h₂ : Closes (b.forkSecond b₁ t₁ loops) b₂) : Closes b (b.forkLast b₂ t₂) := by
  intro k hk hlt hne
  have hfirst : (b.forkFirst x y z t₀).blocks.size = b.blocks.size + 3 := forkFirst_size
  have hsecond : (b.forkSecond b₁ t₁ loops).blocks.size = b₁.blocks.size := forkSecond_size
  have hlast : (b.forkLast b₂ t₂).blocks.size = b₂.blocks.size := forkLast_size
  have hcursor : (b.forkLast b₂ t₂).current = b.blocks.size + 2 := rfl
  obtain ⟨hl, hl₁, hl₂⟩ : b.Leaves t₀ (b.forkLast b₂ t₂).blocks ∧
    b₁.Leaves t₁ (b.forkLast b₂ t₂).blocks ∧ b₂.Leaves t₂ (b.forkLast b₂ t₂).blocks :=
    forkLast_leaves hb hg₁ hg₂
  obtain ⟨he₁, he₂⟩ : Extends b₁.blocks (b.forkLast b₂ t₂).blocks ∧
    Extends b₂.blocks (b.forkLast b₂ t₂).blocks := forkLast_extends hb hg₁ hg₂
  rcases hk with rfl | hk
  · exact ⟨t₀, hl.endAt⟩
  by_cases hc₁ : k = b₁.current
  · exact ⟨t₁, hc₁ ▸ hl₁.endAt⟩
  by_cases hc₂ : k = b₂.current
  · exact ⟨t₂, hc₂ ▸ hl₂.endAt⟩
  -- the second part has made what is new since the first part, and filled the second block
  by_cases hpart : k = b.blocks.size + 1 ∨ b₁.blocks.size ≤ k
  · obtain ⟨t, ht⟩ := h₂ k (by rwa [hsecond]) (hlast ▸ hlt) hc₂
    exact ⟨t, he₂.endAt ht⟩
  · have hfilled : k = b.blocks.size ∨ (b.forkFirst x y z t₀).blocks.size ≤ k := by omega
    obtain ⟨t, ht⟩ := h₁ k hfilled (by omega) hc₁
    exact ⟨t, he₁.endAt ht⟩

end Builder

theorem Develops.closes {law : Law} {b b' : Builder} {known known' : List Fact}
    (h : Develops law b known b' known') (hb : b.Ready) : b.Closes b' := by
  induction h with
  | refl => exact .of_size rfl rfl
  | trans h h' ih ih' =>
    have hg := h.grown hb
    exact (ih hb).trans (ih' hg.ready) (h'.grown hg.ready).within.blocks
  | compute | declare | perform => exact .of_size Builder.emit_size rfl
  | jump => exact Builder.jump_closes hb
  | branch _ h₁ h₂ ih₁ ih₂ | loop h₁ _ h₂ ih₁ ih₂ =>
    have hg₁ := h₁.grown (Builder.forkFirst_ready hb)
    have hg₂ := h₂.grown (Builder.forkSecond_ready hb hg₁)
    exact .forkLast hb hg₁ hg₂ (ih₁ (Builder.forkFirst_ready hb))
      (ih₂ (Builder.forkSecond_ready hb hg₁))

/-! ## The finished function -/

/-- A function whose blocks make a proper graph. -/
structure Function.Intact (f : Function) : Prop where
  terminated : ∀ k < f.blocks.size, ∃ t, endAt f.blocks k = some t
  returns : ∃! k, ∃ v, endAt f.blocks k = some (.ret v)
  targets : ∀ k t, endAt f.blocks k = some t → ∀ n ∈ t.targets, n ≠ 0 ∧ n < f.blocks.size ∧
    ∀ number, labelAt f.blocks n ≠ some (Builder.labelFor "unreachable" number)
  labels : ∀ k k' label, labelAt f.blocks k = some label → labelAt f.blocks k' = some label →
    k = k'

theorem charted_initial : Builder.initial.Charted where
  labels k label h := by
    have hk := lt_of_labelAt h
    change k < 1 at hk
    obtain rfl : k = 0 := by omega
    cases h
    exact ⟨"entry", by decide, rfl⟩
  ends k t h := by
    rw [Builder.initial_endAt] at h
    cases h
  loops := nofun

theorem Builder.Entered.lt {b : Builder} {k : Nat} (h : b.Entered k) : k < b.blocks.size := by
  obtain ⟨-, name, -, hlabel⟩ := h
  exact lt_of_labelAt hlabel

theorem Builder.Entered.label_ne {b : Builder} {k : Nat} (h : b.Entered k) (number : Nat) :
    labelAt b.blocks k ≠ some (labelFor "unreachable" number) := by
  obtain ⟨-, name, hname, hlabel⟩ := h
  intro heq
  have heq := Option.some.inj (hlabel.symm.trans heq)
  have hdot := dot_not_mem_of_mem_blockNames
  have hmem : name ∈ blockNames := List.mem_cons_of_mem _ (List.mem_cons_of_mem _ hname)
  obtain ⟨rfl, -⟩ := labelFor_inj (hdot name hmem) (hdot "unreachable" (by decide)) heq
  exact absurd hname (by decide)

theorem Develops.intact {law : Law} {b : Builder} {known : List Fact} {v : Operand}
    (h : Develops law .initial [] b known) :
    ((b.terminate (.ret v)).function entryName .int).Intact := by
  have hinitial := Builder.initial_ready
  have hready := (h.grown hinitial).ready
  have hcharted := (h.charted hinitial charted_initial).1
  have hend (k : Nat) : endAt (b.terminate (.ret v)).blocks k =
      if k = b.current then some (.ret v) else endAt b.blocks k := Builder.terminate_endAt hready
  have hlabel (k : Nat) : labelAt (b.terminate (.ret v)).blocks k = labelAt b.blocks k :=
    Builder.terminate_labelAt
  refine ⟨fun k hk => ?_, ⟨b.current, ⟨v, ?_⟩, ?_⟩, fun k t ht n hn => ?_, ?_⟩
  · change k < (b.terminate (.ret v)).blocks.size at hk
    rw [Builder.terminate_size] at hk
    change ∃ t, endAt (b.terminate (.ret v)).blocks k = some t
    rw [hend]
    split
    · exact ⟨_, rfl⟩
    · rename_i hne
      exact h.closes hinitial k (Nat.eq_zero_or_pos k) hk hne
  · exact (hend _).trans (if_pos rfl)
  · rintro k ⟨v', hv'⟩
    by_contra hne
    have hold := ((hend k).trans (if_neg hne)).symm.trans hv'
    exact (hcharted.ends k _ hold).1 v' rfl
  · change endAt (b.terminate (.ret v)).blocks k = some t at ht
    rw [hend] at ht
    split at ht
    · cases ht
      cases hn
    · have hentered := (hcharted.ends k t ht).2 n hn
      have hlt : n < (b.terminate (.ret v)).blocks.size := by
        rw [Builder.terminate_size]
        exact hentered.lt
      exact ⟨Nat.ne_of_gt hentered.1, hlt, fun number =>
        (hlabel n).trans_ne (hentered.label_ne number)⟩
  · intro k k' label hk hk'
    obtain ⟨name, hname, rfl⟩ := hcharted.labels k label ((hlabel k).symm.trans hk)
    obtain ⟨name', hname', heq⟩ := hcharted.labels k' _ ((hlabel k').symm.trans hk')
    have hdot := dot_not_mem_of_mem_blockNames
    exact (labelFor_inj (hdot name hname) (hdot name' hname') heq).2

end Code

open Code

/-- Lowering a tree with any annotations makes its edits one by one, with a state that is in
range at every moment and nothing written behind the end of a block; and where it succeeds, the
code is an intact graph. -/
theorem CheckedProgram.lower_intact (p : CheckedProgram) (name : String) :
    let script := Script.program p.annotations p.program.statements
    let edits := (script.run .initial).1
    script.lowering = Lowering.program p.annotations p.program.statements ∧
    (∀ before after, edits = before ++ after → Sane (replay .initial before)) ∧
    (∀ before e after, edits = before ++ e :: after → e.writes = true →
      (replay .initial before).builder.isTerminated = false) ∧
    ∀ m, p.lower name = .ok m → ∃ f, m.functions = [f] ∧ f.name = entryName ∧ f.Intact := by
  have hgoes := Script.program_goes p.annotations p.program.statements
  refine ⟨Script.lowering_program _ _, fun before after he => ?_, fun before e after he => ?_,
    fun m hm => ?_⟩
  · exact Orderly.sane (he ▸ hgoes.1) sane_initial
  · exact Orderly.writes (he ▸ hgoes.1)
  · obtain ⟨s, ⟨b, known, hd, -, hs⟩, rfl⟩ := hgoes.lower_eq_ok hm
    refine ⟨_, rfl, rfl, ?_⟩
    rw [hs]
    exact hd.intact

theorem exists_lower_intact : ∃ p m f,
    checkSource "while true { if 1 < 2 { break; } print 1; continue; }" "loop" = .ok p ∧
    p.lower "loop" = .ok m ∧ m.functions = [f] ∧ f.Intact ∧ f.blocks.size = 9 := by
  have hlower : (checkSource "while true { if 1 < 2 { break; } print 1; continue; }"
      "loop").toOption.bind (fun p => (p.lower "loop").toOption.map fun m =>
        m.functions.map (·.blocks.size)) = some [9] := by decide +kernel
  obtain ⟨p, hp, hlower⟩ := Option.bind_eq_some_iff.1 hlower
  obtain ⟨m, hm, hsize⟩ := Option.map_eq_some_iff.1 hlower
  have hm := toOption_eq_some.1 hm
  obtain ⟨f, hf, -, hintact⟩ := (p.lower_intact "loop").2.2.2 m hm
  rw [hf] at hsize
  exact ⟨p, m, f, toOption_eq_some.1 hp, hm, hf, hintact, by simpa using hsize⟩

end Leveret
