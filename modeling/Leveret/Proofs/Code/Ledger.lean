import Leveret.Proofs.Code.Integrity
import Leveret.Tree.Postorder

/-!
# Slots and stores

Lowering gives each declaration a slot of its own, in the order in which it comes to them, and
stores the initial value there. The edits of a part of a program are kept a ledger of: which slots
they make, and how often they store to the slot of a constant. Ledgers of parts add up, and the
code has the instructions that were emitted, if in another order.
-/

namespace Leveret

/-! ## Declarations -/

namespace Stmt

def name? : Stmt → Option String
  | declareVar _ name .. | declareConst _ name .. => some name
  | _ => none

def isConstant : Stmt → Bool
  | declareConst .. => true
  | _ => false

def slot? (types : Annotations) (t : Stmt) : Option Code.Slot := do
  return ⟨← t.name?, ← types[t.id]?⟩

theorem slot?_eq_some {types : Annotations} {t : Stmt} {name : String} {ty : Ty} :
    t.slot? types = some ⟨name, ty⟩ ↔ t.name? = some name ∧ types[t.id]? = some ty := by
  unfold slot?
  cases t.name? <;> cases types[t.id]? <;> simp

end Stmt

def Part.declaration? : Part → Option Stmt
  | stmt t => t.name?.map fun _ => t
  | expr _ => none

def declaredIn (parts : List Part) : List Stmt := parts.filterMap Part.declaration?

def Program.declarations (p : Program) : List Stmt := declaredIn p.parts

@[simp]
theorem declaredIn_append (l l' : List Part) :
    declaredIn (l ++ l') = declaredIn l ++ declaredIn l' := List.filterMap_append

@[simp]
theorem declaredIn_expr (e : Expr) : declaredIn [.expr e] = [] := rfl

@[simp]
theorem declaredIn_stmt (t : Stmt) : declaredIn [.stmt t] = (t.name?.map fun _ => t).toList := by
  cases h : t.name? <;> simp [declaredIn, Part.declaration?, h]

namespace Code

open Lowering

/-! ## Instructions -/

def Instruction.target? : Instruction → Option Nat
  | store slot .. => some slot
  | _ => none

def storesTo (slot : Nat) (list : List Instruction) : List Instruction :=
  list.filter (·.target? = some slot)

theorem storesTo_append (slot : Nat) (list list' : List Instruction) :
    storesTo slot (list ++ list') = storesTo slot list ++ storesTo slot list' :=
  List.filter_append ..

theorem storesTo_store (n slot : Nat) (ty : Ty) (o : Operand) :
    storesTo n [.store slot ty o] = if slot = n then [.store slot ty o] else [] := by
  simp [storesTo, List.filter_cons, Instruction.target?]

def instructionsOf (blocks : Array BasicBlock) : List Instruction :=
  blocks.toList.flatMap (·.instructions.toList)

def Edit.instruction? : Edit → Option Instruction
  | emit i => some i
  | _ => none

def emitted (es : List Edit) : List Instruction := es.filterMap Edit.instruction?

theorem emitted_append (es es' : List Edit) : emitted (es ++ es') = emitted es ++ emitted es' :=
  List.filterMap_append

theorem instructionsOf_modify {blocks : Array BasicBlock} {c : Nat}
    {change : BasicBlock → BasicBlock}
    (h : ∀ block, (change block).instructions = block.instructions) :
    instructionsOf (blocks.modify c change) = instructionsOf blocks := by
  unfold instructionsOf
  rw [Array.toList_modify]
  generalize blocks.toList = list
  induction list generalizing c with
  | nil => cases c <;> rfl
  | cons block rest ih =>
    cases c with
    | zero => simp [List.modify, h]
    | succ c => simp [List.modify_succ_cons, ih]

theorem Builder.emit_perm {b : Builder} (h : b.current < b.blocks.size) (i : Instruction) :
    (instructionsOf (b.emit i).blocks).Perm (instructionsOf b.blocks ++ [i]) := by
  unfold instructionsOf Builder.emit
  rw [Array.toList_modify]
  have hlt : b.current < b.blocks.toList.length := h
  revert hlt
  generalize b.current = c
  generalize b.blocks.toList = list
  intro hlt
  induction list generalizing c with
  | nil => cases hlt
  | cons block rest ih =>
    cases c with
    | zero =>
      simp only [List.modify_zero_cons, List.flatMap_cons, Array.toList_push, List.append_assoc]
      exact List.perm_append_comm.append_left _
    | succ c =>
      simp only [List.modify_succ_cons, List.flatMap_cons, List.append_assoc]
      exact (ih c (Nat.lt_of_succ_lt_succ hlt)).append_left _

theorem Edit.declare_builder (s : State) (name : String) (slot : Nat) :
    ((Edit.declare name slot).apply s).builder = s.builder := by
  dsimp only [apply]
  split <;> rfl

theorem Orderly.perm {s : State} {es : List Edit} (h : Orderly s es) (hs : Sane s) :
    (instructionsOf (replay s es).builder.blocks).Perm
      (instructionsOf s.builder.blocks ++ emitted es) := by
  induction es generalizing s with
  | nil => simp [replay, emitted]
  | cons e es ih =>
    refine (ih h.2 (hs.apply h.1)).trans ?_
    cases e with
    | emit i =>
      have hemit := Builder.emit_perm hs.cursor i
      refine (hemit.append_right _).trans ?_
      rw [List.append_assoc]
      exact .refl _
    | createBlock name =>
      have hblocks : instructionsOf (s.builder.createBlock name).2.blocks =
          instructionsOf s.builder.blocks := by
        simp [instructionsOf, Builder.createBlock]
      change (instructionsOf (s.builder.createBlock name).2.blocks ++ _).Perm _
      rw [hblocks]
      exact .refl _
    | terminate t =>
      have hblocks : instructionsOf (s.builder.terminate t).blocks =
          instructionsOf s.builder.blocks := instructionsOf_modify fun _ => rfl
      change (instructionsOf (s.builder.terminate t).blocks ++ _).Perm _
      rw [hblocks]
      exact .refl _
    | declare name slot =>
      rw [Edit.declare_builder]
      exact .refl _
    | _ => exact .refl _

/-! ## Ledgers -/

/-- What a declaration does once its initial value is there. -/
def allocation (slot : Nat) (name : String) (ty : Ty) (o : Operand) : List Edit :=
  [.allocateSlot name ty, .emit (.store slot ty o), .declare name slot]

/-- Among the edits are those of the declaration itself, and they end with its slot. -/
def Makes (types : Annotations) (t : Stmt) (s : State) (es : List Edit) (slot : Nat)
    (name : String) (ty : Ty) (o : Operand) : Prop :=
  ∃ before own after, es = before ++ (own ++ allocation slot name ty o) ++ after ∧
    (stmt types t : Script (Option Operand)).run (replay s before) =
      (own ++ allocation slot name ty o, .ok none) ∧
    (replay s (before ++ own)).builder.slots.size = slot

/-- The edits make the slots of the declarations, one after the other, and store once to each of
them that belongs to a constant, and never to that of a constant from before. -/
structure Ledger (isConst : Nat → Bool) (types : Annotations) (declared : List Stmt) (s : State)
    (es : List Edit) : Prop where
  slots : (replay s es).builder.slots.toList.map some =
    s.builder.slots.toList.map some ++ declared.map (Stmt.slot? types)
  once : ∀ n, isConst n = true → (storesTo n (emitted es)).length =
    if s.builder.slots.size ≤ n ∧ n < s.builder.slots.size + declared.length then 1 else 0
  made : ∀ k t, declared[k]? = some t → ∃ name ty o, t.slot? types = some ⟨name, ty⟩ ∧
    Makes types t s es (s.builder.slots.size + k) name ty o

section Ledger

variable {isConst : Nat → Bool} {types : Annotations} {declared declared' : List Stmt} {s : State}
  {es es' : List Edit} {t : Stmt}

theorem Makes.append_right {slot : Nat} {name : String} {ty : Ty} {o : Operand}
    (h : Makes types t s es slot name ty o) : Makes types t s (es ++ es') slot name ty o := by
  obtain ⟨before, own, after, rfl, hmade⟩ := h
  exact ⟨before, own, after ++ es', List.append_assoc .., hmade⟩

theorem Makes.append_left {slot : Nat} {name : String} {ty : Ty} {o : Operand}
    (h : Makes types t (replay s es) es' slot name ty o) :
    Makes types t s (es ++ es') slot name ty o := by
  obtain ⟨before, own, after, rfl, hrun, hsize⟩ := h
  refine ⟨es ++ before, own, after, by simp only [List.append_assoc], ?_, ?_⟩
  · rwa [replay_append]
  · rwa [List.append_assoc, replay_append]

theorem Ledger.size (h : Ledger isConst types declared s es) :
    (replay s es).builder.slots.size = s.builder.slots.size + declared.length := by
  simpa using congrArg List.length h.slots

theorem Ledger.nil : Ledger isConst types [] s [] where
  slots := (List.append_nil _).symm
  once n _ := by
    rw [if_neg (by simp)]
    rfl
  made := nofun

theorem Ledger.append (h : Ledger isConst types declared s es)
    (h' : Ledger isConst types declared' (replay s es) es') :
    Ledger isConst types (declared ++ declared') s (es ++ es') where
  slots := by
    rw [replay_append, h'.slots, h.slots, List.map_append, List.append_assoc]
  once n hn := by
    rw [emitted_append, storesTo_append, List.length_append, h.once n hn, h'.once n hn, h.size,
      List.length_append]
    split <;> split <;> split <;> omega
  made k t ht := by
    rcases Nat.lt_or_ge k declared.length with hk | hk
    · rw [List.getElem?_append_left hk] at ht
      obtain ⟨name, ty, o, hslot, hmade⟩ := h.made k t ht
      exact ⟨name, ty, o, hslot, hmade.append_right⟩
    · rw [List.getElem?_append_right hk] at ht
      obtain ⟨name, ty, o, hslot, hmade⟩ := h'.made _ t ht
      have hindex : (replay s es).builder.slots.size + (k - declared.length) =
          s.builder.slots.size + k := by
        rw [h.size]
        omega
      exact ⟨name, ty, o, hslot, hindex ▸ hmade.append_left⟩

/-- An edit that neither makes a slot nor stores to that of a constant. -/
def Edit.Plain (isConst : Nat → Bool) : Edit → Prop
  | emit i => ∀ slot ∈ i.target?, isConst slot = false
  | allocateSlot .. => False
  | _ => True

theorem Edit.Plain.slots {e : Edit} (h : e.Plain isConst) :
    (e.apply s).builder.slots = s.builder.slots := by
  cases e with
  | allocateSlot => cases h
  | declare name slot => rw [declare_builder]
  | _ => rfl

theorem Ledger.plain {e : Edit} (h : e.Plain isConst) : Ledger isConst types [] s [e] where
  slots := by
    change (e.apply s).builder.slots.toList.map some = _
    rw [h.slots]
    exact (List.append_nil _).symm
  once n hn := by
    rw [if_neg (by simp), List.length_eq_zero_iff]
    cases e with
    | emit i =>
      have hne : i.target? ≠ some n := by
        intro ht
        rw [h n ht] at hn
        cases hn
      simp [emitted, Edit.instruction?, storesTo, hne]
    | _ => rfl
  made := nofun

theorem allocation_slots (s : State) (slot : Nat) (name : String) (ty : Ty) (o : Operand) :
    (replay s (allocation slot name ty o)).builder.slots = s.builder.slots.push ⟨name, ty⟩ :=
  congrArg Builder.slots (Edit.declare_builder _ _ _)

theorem emitted_allocation (slot : Nat) (name : String) (ty : Ty) (o : Operand) :
    emitted (allocation slot name ty o) = [.store slot ty o] := rfl

theorem Ledger.declaration {name : String} {ty : Ty} {o : Operand} {slot : Nat}
    (h : Ledger isConst types declared s es) (hslot : (replay s es).builder.slots.size = slot)
    (ht : t.slot? types = some ⟨name, ty⟩)
    (hrun : (stmt types t : Script (Option Operand)).run s =
      (es ++ allocation slot name ty o, .ok none)) :
    Ledger isConst types (declared ++ [t]) s (es ++ allocation slot name ty o) where
  slots := by
    rw [replay_append, allocation_slots, Array.toList_push, List.map_append, h.slots]
    simp [ht]
  once n hn := by
    have hstore : (storesTo n (emitted (allocation slot name ty o))).length =
        if slot = n then 1 else 0 := by
      rw [emitted_allocation, storesTo_store, apply_ite List.length]
      rfl
    rw [emitted_append, storesTo_append, List.length_append, h.once n hn, hstore,
      List.length_append, List.length_singleton, ← hslot, h.size]
    split <;> split <;> split <;> omega
  made k t' ht' := by
    rcases Nat.lt_or_ge k declared.length with hk | hk
    · rw [List.getElem?_append_left hk] at ht'
      obtain ⟨name, ty, o, hslot, hmade⟩ := h.made k t' ht'
      exact ⟨name, ty, o, hslot, hmade.append_right⟩
    · obtain ⟨rfl, rfl⟩ : k = declared.length ∧ t = t' := by
        rw [List.getElem?_append_right hk] at ht'
        cases hsub : k - declared.length with
        | zero =>
          rw [hsub] at ht'
          cases ht'
          exact ⟨by omega, rfl⟩
        | succ m =>
          rw [hsub] at ht'
          cases ht'
      rw [← h.size, hslot]
      exact ⟨name, ty, o, ht, [], es, [], by simp, hrun, hslot⟩

theorem Makes.store_mem {slot : Nat} {name : String} {ty : Ty} {o : Operand}
    (h : Makes types t s es slot name ty o) :
    .store slot ty o ∈ storesTo slot (emitted es) := by
  obtain ⟨before, own, after, rfl, -⟩ := h
  have hstore : .store slot ty o ∈ storesTo slot (emitted (allocation slot name ty o)) := by
    rw [emitted_allocation, storesTo_store, if_pos rfl]
    exact List.mem_singleton_self _
  simp only [emitted_append, storesTo_append, List.mem_append]
  exact .inl (.inr (.inr hstore))

/-- The one store to the slot of a constant is that of its declaration. -/
theorem Ledger.storesTo_eq {k slot : Nat} {name : String} {ty : Ty} {o : Operand}
    (h : Ledger isConst types declared s es) (hk : k < declared.length)
    (hslot : s.builder.slots.size + k = slot) (hconst : isConst slot = true)
    (hmade : Makes types t s es slot name ty o) :
    storesTo slot (emitted es) = [.store slot ty o] := by
  have hlength := h.once slot hconst
  rw [if_pos (by omega), List.length_eq_one_iff] at hlength
  obtain ⟨i, hi⟩ := hlength
  have hmem := hmade.store_mem
  rw [hi, List.mem_singleton] at hmem
  rw [hi, hmem]

end Ledger

end Code

end Leveret
