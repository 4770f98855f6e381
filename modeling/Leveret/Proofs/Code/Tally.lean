import Leveret.Proofs.Code.Ledger

/-!
# What lowering makes

Every construct of a program is lowered once, wherever it stands and whether or not it can run. So
the blocks, calls, stores, loads and registers of the code can be counted in the tree: each
construct makes its own, and what a part of the program makes is what its constructs make.
-/

namespace Leveret

namespace Code

/-! ## Items -/

inductive Item where
  | block | call | store | load | register
deriving DecidableEq

def Instruction.item? : Instruction → Option Item
  | call .. => some .call
  | store .. => some .store
  | load .. => some .load
  | _ => none

def Instruction.dest? (i : Instruction) : Option Nat := i.result?.map Prod.fst

def registersOf (list : List Instruction) : List Nat := list.filterMap Instruction.dest?

theorem registersOf_append (list list' : List Instruction) :
    registersOf (list ++ list') = registersOf list ++ registersOf list' := List.filterMap_append

def Function.count (f : Function) (k : Item) : Nat :=
  ((instructionsOf f.blocks).filterMap Instruction.item?).count k

def Edit.item? : Edit → Option Item
  | createBlock _ => some .block
  | freshRegister => some .register
  | emit i => i.item?
  | _ => none

def Edit.slot? : Edit → Option Slot
  | allocateSlot name ty => some ⟨name, ty⟩
  | _ => none

end Code

/-! ## Constructs -/

inductive Construct where
  | literal | plus | minus | binary | load | compound
  | declaration | assignment | print | conditional | loop | breakLoop | continueLoop | value
deriving DecidableEq

/-- What a construct makes, apart from what its parts make. -/
def Construct.items : Construct → List Code.Item
  | minus | binary => [.register]
  | load => [.register, .load]
  | declaration | assignment => [.store]
  | print => [.call]
  | conditional | loop => [.block, .block, .block]
  | breakLoop | continueLoop => [.block]
  | literal | plus | compound | value => []

def Part.construct : Part → Construct
  | expr (.literal ..) => .literal
  | expr (.unary _ .plus _) => .plus
  | expr (.unary _ .minus _) => .minus
  | expr (.binary ..) => .binary
  | expr (.load ..) => .load
  | expr (.compound ..) => .compound
  | stmt (.declareVar ..) | stmt (.declareConst ..) => .declaration
  | stmt (.assign ..) => .assignment
  | stmt (.print ..) => .print
  | stmt (.ifElse ..) => .conditional
  | stmt (.whileLoop ..) => .loop
  | stmt (.breakLoop _) => .breakLoop
  | stmt (.continueLoop _) => .continueLoop
  | stmt (.expr ..) => .value

def Program.count (p : Program) (c : Construct) : Nat := (p.parts.map Part.construct).count c

namespace Code

open Lowering

def slotsFor (types : Annotations) (parts : List Part) : List (Option Slot) :=
  (declaredIn parts).map (Stmt.slot? types)

def itemsFor (parts : List Part) : List Item := parts.flatMap (·.construct.items)

@[simp]
theorem slotsFor_append (types : Annotations) (l l' : List Part) :
    slotsFor types (l ++ l') = slotsFor types l ++ slotsFor types l' := by simp [slotsFor]

@[simp]
theorem slotsFor_expr (types : Annotations) (e : Expr) : slotsFor types [.expr e] = [] := rfl

@[simp]
theorem itemsFor_append (l l' : List Part) : itemsFor (l ++ l') = itemsFor l ++ itemsFor l' := by
  simp [itemsFor]

@[simp]
theorem itemsFor_singleton (part : Part) : itemsFor [part] = part.construct.items := by
  simp [itemsFor]

theorem slotsFor_snoc {types : Annotations} {t : Stmt} (ht : t.name? = none) (l : List Part) :
    slotsFor types (l ++ [.stmt t]) = slotsFor types l := by simp [slotsFor, ht]

theorem itemsFor_snoc {part : Part} (h : part.construct.items = []) (l : List Part) :
    itemsFor (l ++ [part]) = itemsFor l := by simp [h]

theorem count_itemsFor (parts : List Part) :
    let count c := (parts.map Part.construct).count c
    (itemsFor parts).count .block = 3 * (count .conditional + count .loop) +
      (count .breakLoop + count .continueLoop) ∧
    (itemsFor parts).count .call = count .print ∧
    (itemsFor parts).count .store = count .declaration + count .assignment ∧
    (itemsFor parts).count .load = count .load ∧
    (itemsFor parts).count .register = count .load + count .binary + count .minus := by
  induction parts with
  | nil => simp [itemsFor]
  | cons part rest ih =>
    have hcons : itemsFor (part :: rest) = part.construct.items ++ itemsFor rest := rfl
    simp only [hcons, List.map_cons, List.count_append, List.count_cons] at ih ⊢
    cases part.construct <;> simp [Construct.items] <;> omega

/-! ## What edits come to -/

theorem replay_nextRegister (s : State) (es : List Edit) :
    (replay s es).builder.nextRegister =
      s.builder.nextRegister + (es.filterMap Edit.item?).count .register := by
  induction es generalizing s with
  | nil => rfl
  | cons e es ih =>
    change (replay (e.apply s) es).builder.nextRegister = _
    rw [ih]
    cases e with
    | freshRegister =>
      simp [Edit.apply, Edit.item?, Builder.freshRegister]
      omega
    | emit i => cases i <;> rfl
    | declare name slot =>
      rw [Edit.declare_builder]
      rfl
    | _ => rfl

theorem replay_slots (s : State) (es : List Edit) :
    (replay s es).builder.slots.toList = s.builder.slots.toList ++ es.filterMap Edit.slot? := by
  induction es generalizing s with
  | nil => simp [replay]
  | cons e es ih =>
    change (replay (e.apply s) es).builder.slots.toList = _
    rw [ih]
    cases e with
    | allocateSlot name ty => simp [Edit.apply, Edit.slot?, Builder.allocateSlot]
    | declare name slot =>
      rw [Edit.declare_builder]
      rfl
    | _ => rfl

theorem replay_blocks_size (s : State) (es : List Edit) :
    (replay s es).builder.blocks.size =
      s.builder.blocks.size + (es.filterMap Edit.item?).count .block := by
  induction es generalizing s with
  | nil => rfl
  | cons e es ih =>
    change (replay (e.apply s) es).builder.blocks.size = _
    rw [ih]
    cases e with
    | createBlock name =>
      simp [Edit.apply, Edit.item?, Builder.createBlock]
      omega
    | emit i =>
      simp only [Edit.apply, Builder.emit, Array.size_modify]
      cases i <;> rfl
    | terminate t =>
      simp only [Edit.apply, Builder.terminate, Array.size_modify]
      rfl
    | declare name slot =>
      rw [Edit.declare_builder]
      rfl
    | _ => rfl

theorem count_emitted (es : List Edit) {k : Item} (hb : k ≠ .block) (hr : k ≠ .register) :
    ((emitted es).filterMap Instruction.item?).count k = (es.filterMap Edit.item?).count k := by
  induction es with
  | nil => rfl
  | cons e es ih =>
    cases e with
    | createBlock name =>
      change _ = (Item.block :: es.filterMap Edit.item?).count k
      rw [List.count_cons_of_ne hb.symm]
      exact ih
    | freshRegister =>
      change _ = (Item.register :: es.filterMap Edit.item?).count k
      rw [List.count_cons_of_ne hr.symm]
      exact ih
    | emit i =>
      change ((i :: emitted es).filterMap Instruction.item?).count k = _
      rw [List.filterMap_cons, List.filterMap_cons]
      dsimp only [Edit.item?]
      cases i.item? with
      | none => exact ih
      | some j => simp [List.count_cons, ih]
    | _ => exact ih

theorem Orderly.code_perm {es : List Edit} (h : Orderly .initial es) (name : String) (ty : Ty) :
    (instructionsOf ((replay .initial es).builder.function name ty).blocks).Perm (emitted es) :=
  h.perm sane_initial

theorem Orderly.count {es : List Edit} (h : Orderly .initial es) {name : String} {ty : Ty}
    {k : Item} (hb : k ≠ .block) (hr : k ≠ .register) :
    ((replay .initial es).builder.function name ty).count k =
      (es.filterMap Edit.item?).count k := by
  rw [← count_emitted es hb hr]
  exact ((h.code_perm name ty).filterMap _).count_eq k

/-! ## Tallies -/

/-- The edits make the slots, in order, and the items, in any order, and the registers are written
in the order in which they are handed out, each of them once. -/
structure Tally (declared : List (Option Slot)) (items : List Item) (s : State)
    (es : List Edit) : Prop where
  slots : (es.filterMap Edit.slot?).map some = declared
  made : (es.filterMap Edit.item?).Perm items
  registers : registersOf (emitted es) =
    List.range' s.builder.nextRegister (items.count .register)

section Tally

variable {declared declared' : List (Option Slot)} {items items' : List Item} {s : State}
  {es es' : List Edit}

theorem Tally.append (h : Tally declared items s es)
    (h' : Tally declared' items' (replay s es) es') :
    Tally (declared ++ declared') (items ++ items') s (es ++ es') where
  slots := by rw [List.filterMap_append, List.map_append, h.slots, h'.slots]
  made := by
    rw [List.filterMap_append]
    exact h.made.append h'.made
  registers := by
    have hnext := replay_nextRegister s es
    rw [h.made.count_eq] at hnext
    rw [emitted_append, registersOf_append, h.registers, h'.registers, hnext, List.count_append,
      List.range'_append_1]

theorem Tally.of_perm (h : Tally declared items s es) (hp : items.Perm items') :
    Tally declared items' s es where
  slots := h.slots
  made := h.made.trans hp
  registers := by rw [h.registers, hp.count_eq]

structure Sparing (declared : List (Option Slot)) (items : List Item) (es : List Edit) : Prop where
  slots : (es.filterMap Edit.slot?).length ≤ declared.length
  made : ∀ k, (es.filterMap Edit.item?).count k ≤ items.count k

theorem Sparing.nil : Sparing declared items [] := ⟨Nat.zero_le _, fun _ => Nat.zero_le _⟩

theorem Sparing.append (h : Sparing declared items es) (h' : Sparing declared' items' es') :
    Sparing (declared ++ declared') (items ++ items') (es ++ es') where
  slots := by
    rw [List.filterMap_append, List.length_append, List.length_append]
    exact Nat.add_le_add h.slots h'.slots
  made k := by
    rw [List.filterMap_append, List.count_append, List.count_append]
    exact Nat.add_le_add (h.made k) (h'.made k)

theorem Tally.sparing (h : Tally declared items s es) : Sparing declared items es where
  slots := Nat.le_of_eq (by rw [← h.slots, List.length_map])
  made k := Nat.le_of_eq (h.made.count_eq k)

end Tally

namespace Script

/-- Whatever state the script starts in, it makes the slots and the items, or at most these if it
fails. -/
structure Tallies {α : Type} (x : Script α) (declared : List (Option Slot)) (items : List Item) :
    Prop where
  ends : ∀ s a, (x.run s).2 = .ok a → Tally declared items s (x.run s).1
  stops : ∀ s d, (x.run s).2 = .error d → Sparing declared items (x.run s).1

section Tallies

variable {α β : Type} {x : Script α} {f : α → Script β} {declared declared' : List (Option Slot)}
  {items items' : List Item}

theorem Tallies.pure (a : α) : Tallies (pure a) [] [] :=
  ⟨fun _ _ _ => ⟨rfl, .refl _, rfl⟩, nofun⟩

theorem Tallies.fail {position : Position} {message : String} :
    Tallies (fail position message : Script α) declared items := ⟨nofun, fun _ _ _ => .nil⟩

theorem Tallies.look {g : State → α} : Tallies (look g) [] [] :=
  ⟨fun _ _ _ => ⟨rfl, .refl _, rfl⟩, nofun⟩

theorem Tallies.edit {e : Edit} (h : ∀ s, Tally declared items s [e]) :
    Tallies (edit e) declared items := ⟨fun s _ _ => h s, nofun⟩

theorem Tallies.sparing (hx : Tallies x declared items) (s : State) :
    Sparing declared items (x.run s).1 := by
  cases hrun : (x.run s).2 with
  | ok a => exact (hx.ends s a hrun).sparing
  | error d => exact hx.stops s d hrun

theorem Tallies.bind (hx : Tallies x declared items) (hf : ∀ a, Tallies (f a) declared' items') :
    Tallies (x >>= f) (declared ++ declared') (items ++ items') := by
  have hbind (s : State) : (x >>= f).run s = x.andThen f s := rfl
  refine ⟨fun s b hb => ?_, fun s e he => ?_⟩
  · have hxs := hx.ends s
    rw [hbind, andThen] at hb ⊢
    rcases hrun : x.run s with ⟨edits, d | a⟩
    · rw [hrun] at hb
      cases hb
    · rw [hrun] at hb hxs
      exact (hxs a rfl).append ((hf a).ends _ b hb)
  · have hxs := hx.sparing s
    rw [hbind, andThen]
    rcases hrun : x.run s with ⟨edits, d | a⟩
    · rw [hrun] at hxs
      have h := hxs.append (@Sparing.nil declared' items')
      rwa [List.append_nil] at h
    · rw [hrun] at hxs
      exact hxs.append ((hf a).sparing _)

theorem Tallies.of_perm (hx : Tallies x declared items) (hp : items.Perm items') :
    Tallies x declared items' where
  ends s a ha := (hx.ends s a ha).of_perm hp
  stops s d hd := ⟨(hx.stops s d hd).slots, fun k => hp.count_eq k ▸ (hx.stops s d hd).made k⟩

theorem Tallies.first (hx : Tallies x [] []) (hf : ∀ a, Tallies (f a) declared items) :
    Tallies (x >>= f) declared items := hx.bind hf

theorem Tallies.one {k : Item} (hx : Tallies x [] [k]) (hf : ∀ a, Tallies (f a) declared items) :
    Tallies (x >>= f) declared (k :: items) := hx.bind hf

theorem Tallies.last (hx : Tallies x declared items) (hf : ∀ a, Tallies (f a) [] []) :
    Tallies (x >>= f) declared items := by
  have h := hx.bind hf
  rwa [List.append_nil, List.append_nil] at h

theorem Tallies.ending {e : Edit} (hx : Tallies x declared items) (he : ∀ s, Tally [] [] s [e]) :
    Tallies (ending x e) declared items := by
  refine ⟨fun s a ha => ?_, fun s d _ => ?_⟩
  · have h := (hx.ends s a ha).append (he _)
    rwa [List.append_nil, List.append_nil] at h
  · have h := (hx.sparing s).append (he s).sparing
    rwa [List.append_nil, List.append_nil] at h

theorem Tallies.discard (hx : Tallies x declared items) : Tallies (discard x) declared items :=
  hx.last fun _ => .pure ()

/-! ## Steps -/

theorem liftScope_tallies {position : Position} (r : Except ScopeError α) :
    Tallies (liftScope position r) [] [] := by
  cases r with
  | ok a => exact .pure a
  | error e => exact .fail

theorem typeOf_tallies {types : Annotations} {id : Nat} {position : Position} {f : Ty → Script α}
    (h : ∀ ty, types[id]? = some ty → Tallies (f ty) declared items) :
    Tallies (typeOf types id position >>= f) declared items := by
  unfold typeOf
  cases hty : types[id]? with
  | none => exact .fail
  | some ty =>
    rw [pure_bind]
    exact h ty hty

theorem require_tallies {position : Position} (r : Option Operand) :
    Tallies (require position r) [] [] := by
  cases r with
  | none => exact .fail
  | some o => exact .pure o

theorem operand_tallies {types : Annotations} {e : Expr} {f : Operand → Script α}
    (he : Tallies (expr types e) declared items) (hf : ∀ o, Tallies (f o) declared' items') :
    Tallies (do f (← require e.position (← expr types e))) (declared ++ declared')
      (items ++ items') :=
  he.bind fun r => .first (require_tallies r) hf

theorem resolve_tallies {position : Position} {name : String} :
    Tallies (resolve position name) [] [] := by
  unfold resolve
  refine .first .look fun scope => .first (liftScope_tallies scope) fun slot => ?_
  exact .first .look fun ty => .pure (slot, ty)

theorem createBlock_tallies {name : String} : Tallies (createBlock name) [] [.block] := by
  unfold createBlock
  refine .first .look fun number => .one (.edit fun s => ?_) fun _ => .pure number
  exact ⟨rfl, .refl _, rfl⟩

/-- A register is handed out and written at once, by the one instruction that follows, if any. -/
theorem compute_tallies {f : Nat → Script α}
    (hf : ∀ dest s, (∃ d, (f dest).run s = ([], .error d)) ∨ ∃ i a,
      (f dest).run s = ([.emit i], .ok a) ∧ i.dest? = some dest ∧ i.item?.toList = items) :
    Tallies (freshRegister >>= f) [] (.register :: items) := by
  have hrun (s : State) : (freshRegister >>= f).run s = Prod.map (.freshRegister :: ·) id
      ((f s.builder.nextRegister).run (Edit.freshRegister.apply s)) := rfl
  refine ⟨fun s a ha => ?_, fun s d hd => ?_⟩
  · rcases hf s.builder.nextRegister (Edit.freshRegister.apply s) with ⟨d, hd⟩ |
      ⟨i, b, hi, hdest, hitem⟩
    · rw [hrun, hd] at ha
      cases ha
    have hregister : items.count .register = 0 := by
      subst hitem
      cases i <;> rfl
    rw [hrun, hi]
    refine ⟨rfl, ?_, ?_⟩
    · subst hitem
      change (Item.register :: [Edit.emit i].filterMap Edit.item?).Perm _
      cases i <;> exact .refl _
    · change registersOf [i] = _
      simp [registersOf, hdest, hregister]
  · rcases hf s.builder.nextRegister (Edit.freshRegister.apply s) with ⟨d', hd'⟩ |
      ⟨i, b, hi, -⟩
    · rw [hrun, hd']
      refine ⟨Nat.le_refl _, fun k => ?_⟩
      change [Item.register].count k ≤ _
      simp [List.count_cons]
    · rw [hrun, hi] at hd
      cases hd

/-! ## Instructions -/

theorem unary_tallies {op : UnaryOp} {ty : Ty} {o : Operand} {node : Node} {operand : Expr} :
    Tallies (unary op ty o) [] (Part.expr (.unary node op operand)).construct.items := by
  cases op with
  | plus => exact .pure o
  | minus => exact compute_tallies fun dest s => .inr ⟨_, _, rfl, rfl, rfl⟩

theorem binaryInstruction?_dest {op : BinaryOp} {ty : Ty} {dest : Nat} {a b : Operand}
    {i : Instruction} (h : Lowering.binaryInstruction? op ty dest a b = some i) :
    i.dest? = some dest ∧ i.item? = none := by
  cases ty <;> cases op <;> cases h
  all_goals exact ⟨rfl, rfl⟩

theorem binary_tallies {position : Position} {op : BinaryOp} {ty : Ty} {a b : Operand} :
    Tallies (binary position op ty a b) [] [.register] := by
  refine compute_tallies fun dest s => ?_
  cases hi : Lowering.binaryInstruction? op ty dest a b with
  | none => exact .inl ⟨_, rfl⟩
  | some i =>
    obtain ⟨hdest, hitem⟩ := binaryInstruction?_dest hi
    exact .inr ⟨i, _, rfl, hdest, by rw [hitem]; rfl⟩

theorem load_tallies {position : Position} {name : String} :
    Tallies (load position name) [] [.register, .load] := by
  unfold load
  exact .first resolve_tallies fun r => compute_tallies fun dest s => .inr ⟨_, _, rfl, rfl, rfl⟩

theorem store_tallies {slot : Nat} {ty : Ty} {o : Operand} :
    Tallies (edit (.emit (.store slot ty o))) [] [.store] := .edit fun _ => ⟨rfl, .refl _, rfl⟩

theorem declare_tallies {position : Position} {name : String} {ty : Ty} {o : Operand} :
    Tallies (declare position name ty o) [some ⟨name, ty⟩] [.store] := by
  unfold declare allocateSlot
  have hslot : Tallies (edit (.allocateSlot name ty)) [some ⟨name, ty⟩] [] :=
    .edit fun _ => ⟨rfl, .refl _, rfl⟩
  have hdeclare {slot : Nat} : Tallies (edit (.declare name slot)) [] [] :=
    .edit fun _ => ⟨rfl, .refl _, rfl⟩
  refine (Tallies.first .look fun slot => hslot.last fun _ => .pure slot).bind fun slot => ?_
  refine store_tallies.one fun _ => .first .look fun r => ?_
  exact .first (liftScope_tallies r) fun _ => hdeclare

theorem assign_tallies {position : Position} {name : String} {o : Operand} :
    Tallies (assign position name o) [] [.store] := by
  unfold assign
  exact .first resolve_tallies fun r => store_tallies

/-! ## Blocks -/

theorem goTo_tallies {block : Nat} : Tallies (edit (.goTo block)) [] [] :=
  .edit fun _ => ⟨rfl, .refl _, rfl⟩

theorem terminate_tallies {t : Terminator} : Tallies (edit (.terminate t)) [] [] :=
  .edit fun _ => ⟨rfl, .refl _, rfl⟩

theorem inFrame_tallies (hx : Tallies x declared items) : Tallies (inFrame x) declared items := by
  unfold inFrame
  exact .first (.edit fun _ => ⟨rfl, .refl _, rfl⟩) fun _ => hx.ending fun _ => ⟨rfl, .refl _, rfl⟩

theorem inLoop_tallies {targets : LoopTargets} (hx : Tallies x declared items) :
    Tallies (inLoop targets x) declared items := by
  unfold inLoop
  exact .first (.edit fun _ => ⟨rfl, .refl _, rfl⟩) fun _ => hx.ending fun _ => ⟨rfl, .refl _, rfl⟩

theorem jump_tallies {position : Position} {target : LoopTargets → Nat} :
    Tallies (jump position target) [] [.block] := by
  unfold jump
  refine .first .look fun loops => ?_
  cases loops with
  | nil => exact .fail
  | cons targets _ =>
    exact .first terminate_tallies fun _ => createBlock_tallies.one fun _ => goTo_tallies

theorem fill_tallies {block next : Nat} (hx : Tallies x declared items) :
    Tallies (fill block next x) declared items := by
  unfold fill
  exact .first goTo_tallies fun _ => hx.last fun _ => terminate_tallies

theorem fork_tallies {a b c : String} {f : Nat → Nat → Nat → Script α}
    (hf : ∀ i j k, Tallies (f i j k) declared items) :
    Tallies (do f (← createBlock a) (← createBlock b) (← createBlock c)) declared
      (items ++ [.block, .block, .block]) := by
  refine Tallies.of_perm ?_ List.perm_append_comm
  refine createBlock_tallies.one fun i => createBlock_tallies.one fun j => ?_
  exact createBlock_tallies.one fun k => hf i j k

theorem ifElse_tallies {o : Operand} {x y : Script Unit} (hx : Tallies x declared items)
    (hy : Tallies y declared' items') :
    Tallies (ifElse o x y) (declared ++ declared') (items ++ items' ++ [.block, .block, .block]) :=
  fork_tallies fun _ _ _ => .first terminate_tallies fun _ => (fill_tallies hx).bind fun _ =>
    (fill_tallies hy).last fun _ => goTo_tallies

theorem whileLoop_tallies {x : Script Operand} {y : Script Unit} (hx : Tallies x declared items)
    (hy : Tallies y declared' items') :
    Tallies (whileLoop x y) (declared ++ declared')
      (items ++ items' ++ [.block, .block, .block]) :=
  fork_tallies fun _ _ _ => .first terminate_tallies fun _ => .first goTo_tallies fun _ =>
    hx.bind fun _ => .first terminate_tallies fun _ =>
      (fill_tallies (inLoop_tallies hy)).last fun _ => goTo_tallies

/-! ## The whole tree -/

variable {types : Annotations}

theorem declaration_tallies {t : Stmt} {position : Position} {name : String} {ty : Ty}
    {o : Operand} {last : α} (ht : t.slot? types = some ⟨name, ty⟩) :
    Tallies (do declare position name ty o; return last) (slotsFor types [.stmt t])
      (itemsFor [.stmt t]) := by
  have hname := (Stmt.slot?_eq_some.1 ht).1
  have hslots : slotsFor types [.stmt t] = [some ⟨name, ty⟩] := by simp [slotsFor, hname, ht]
  have hitems : itemsFor [.stmt t] = [.store] := by cases t <;> cases hname <;> rfl
  rw [hslots, hitems]
  exact declare_tallies.last fun _ => .pure last

end Tallies

mutual

theorem expr_tallies (types : Annotations) : (e : Expr) →
    Tallies (expr types e) (slotsFor types e.parts) (itemsFor e.parts)
  | .literal node value => by
    rw [expr, Expr.parts]
    exact .pure _
  | .unary node op operand => by
    rw [expr, Expr.parts, slotsFor_append, itemsFor_append, itemsFor_singleton]
    refine typeOf_tallies fun ty _ => operand_tallies (expr_tallies types operand) fun o => ?_
    exact unary_tallies.last fun r => .pure (some r)
  | .binary node op left right => by
    rw [expr, Expr.parts]
    simp only [slotsFor_append, itemsFor_append, List.append_assoc]
    refine typeOf_tallies fun ty _ => operand_tallies (expr_tallies types left) fun a => ?_
    refine operand_tallies (expr_tallies types right) fun b => ?_
    exact binary_tallies.last fun r => .pure (some r)
  | .load node name => by
    rw [expr, Expr.parts]
    exact load_tallies.last fun r => .pure (some r)
  | .compound node body => by
    rw [expr, Expr.parts, slotsFor_append, slotsFor_expr, List.append_nil, itemsFor_snoc rfl]
    exact block_tallies types body

theorem block_tallies (types : Annotations) : (b : Block) →
    Tallies (block types b) (slotsFor types b.parts) (itemsFor b.parts)
  | ⟨_, statements⟩ => by
    rw [block, Block.parts]
    exact inFrame_tallies (stmts_tallies types none statements)

theorem stmt_tallies (types : Annotations) : (t : Stmt) →
    Tallies (stmt types t) (slotsFor types t.parts) (itemsFor t.parts)
  | .declareVar node name declared none => by
    rw [stmt, Stmt.parts]
    exact typeOf_tallies fun ty hty => declaration_tallies (Stmt.slot?_eq_some.2 ⟨rfl, hty⟩)
  | .declareVar node name declared (some init) | .declareConst node name declared init => by
    rw [stmt, Stmt.parts, slotsFor_append, itemsFor_append]
    refine typeOf_tallies fun ty hty => operand_tallies (expr_tallies types init) fun o => ?_
    exact declaration_tallies (Stmt.slot?_eq_some.2 ⟨rfl, hty⟩)
  | .assign node name value => by
    rw [stmt, Stmt.parts, slotsFor_append, itemsFor_append]
    refine operand_tallies (expr_tallies types value) fun o => ?_
    exact assign_tallies.last fun _ => .pure none
  | .print node value => by
    rw [stmt, Stmt.parts, slotsFor_append, itemsFor_append]
    refine typeOf_tallies fun ty _ => operand_tallies (expr_tallies types value) fun o => ?_
    exact (Tallies.edit fun _ => ⟨rfl, .refl _, rfl⟩).last fun _ => .pure none
  | .ifElse node test consequence none => by
    rw [stmt, Stmt.parts, slotsFor_snoc rfl]
    simp only [slotsFor_append, itemsFor_append, List.append_assoc]
    refine operand_tallies (expr_tallies types test) fun o => ?_
    have h := ifElse_tallies (o := o) (block_tallies types consequence).discard (.pure ())
    rw [List.append_nil, List.append_nil] at h
    exact h.last fun _ => .pure none
  | .ifElse node test consequence (some alternative) => by
    rw [stmt, Stmt.parts, slotsFor_snoc rfl]
    simp only [slotsFor_append, itemsFor_append, List.append_assoc]
    refine operand_tallies (expr_tallies types test) fun o => ?_
    have h := ifElse_tallies (o := o) (block_tallies types consequence).discard
      (block_tallies types alternative).discard
    rw [List.append_assoc (itemsFor _)] at h
    exact h.last fun _ => .pure none
  | .whileLoop node test body => by
    rw [stmt, Stmt.parts, slotsFor_snoc rfl, slotsFor_append, itemsFor_append, itemsFor_append]
    have htest := (expr_tallies types test).last fun r => @require_tallies test.position r
    exact (whileLoop_tallies htest (block_tallies types body).discard).last fun _ => .pure none
  | .breakLoop node | .continueLoop node => by
    rw [stmt, Stmt.parts]
    exact jump_tallies.last fun _ => .pure none
  | .expr node value => by
    rw [stmt, Stmt.parts, slotsFor_snoc rfl, itemsFor_snoc rfl]
    exact expr_tallies types value

theorem stmts_tallies (types : Annotations) (last : Option Operand) : (list : List Stmt) →
    Tallies (stmts types last list) (slotsFor types (partsAll list)) (itemsFor (partsAll list))
  | [] => by
    rw [stmts, partsAll]
    exact .pure last
  | t :: rest => by
    rw [stmts, partsAll, slotsFor_append, itemsFor_append]
    exact (stmt_tallies types t).bind fun r => stmts_tallies types r rest

end

theorem program_tallies (types : Annotations) (statements : List Stmt) :
    Tallies (program types statements) (slotsFor types (partsAll statements))
      (itemsFor (partsAll statements)) := by
  rw [program]
  exact (stmts_tallies types none statements).last fun _ => terminate_tallies

end Script

/-! ## Counters -/

theorem length_slotsFor_le (types : Annotations) (parts : List Part) :
    (slotsFor types parts).length ≤ parts.length := by
  rw [slotsFor, List.length_map]
  exact List.length_filterMap_le _ _

theorem count_itemsFor_le (parts : List Part) :
    (itemsFor parts).count .register ≤ parts.length ∧
      (itemsFor parts).count .block ≤ 3 * parts.length := by
  induction parts with
  | nil => exact ⟨Nat.le_refl _, Nat.le_refl _⟩
  | cons part rest ih =>
    have hcons : itemsFor (part :: rest) = part.construct.items ++ itemsFor rest := rfl
    have hone : part.construct.items.count .register ≤ 1 ∧
        part.construct.items.count .block ≤ 3 := by
      cases part.construct <;> decide
    rw [hcons, List.count_append, List.count_append, List.length_cons]
    omega

/-- However lowering ends, at no point of it are there more registers or slots than the tree has
nodes. So their numbers fit in 32 bits if the tree has fewer nodes than there are such numbers. -/
theorem Script.program_counters (types : Annotations) (statements : List Stmt)
    {before after : List Edit}
    (h : ((program types statements).run .initial).1 = before ++ after) :
    (replay .initial before).builder.nextRegister ≤ (partsAll statements).length ∧
    (replay .initial before).builder.slots.size ≤ (partsAll statements).length ∧
    (replay .initial before).builder.blocks.size ≤ 1 + 3 * (partsAll statements).length := by
  obtain ⟨hslots, hmade⟩ := (program_tallies types statements).sparing .initial
  obtain ⟨hregisters, hblocks⟩ := count_itemsFor_le (partsAll statements)
  have hslots' := length_slotsFor_le types (partsAll statements)
  have hregister := hmade .register
  have hblock := hmade .block
  rw [h, List.filterMap_append] at hslots hregister hblock
  rw [List.length_append] at hslots
  rw [List.count_append] at hregister hblock
  refine ⟨?_, ?_, ?_⟩
  · rw [replay_nextRegister]
    change 0 + _ ≤ _
    omega
  · rw [← Array.length_toList, replay_slots, List.length_append]
    change 0 + _ ≤ _
    omega
  · rw [replay_blocks_size]
    change 1 + _ ≤ _
    omega

end Code

open Code

theorem CheckedProgram.lower_tally {p : CheckedProgram} {name : String} {m : Code.Module}
    (h : p.lower name = .ok m) :
    ∃ es, m.functions = [(replay .initial es).builder.function entryName .int] ∧
      Orderly .initial es ∧
      Tally (slotsFor p.annotations p.program.parts) (itemsFor p.program.parts) .initial es := by
  have hgoes := Script.program_goes p.annotations p.program.statements
  have htallies : Script.Goes (Script.program p.annotations p.program.statements) .initial
      fun _ s' => ∃ es, s' = replay .initial es ∧ Orderly .initial es ∧ Tally _ _ .initial es :=
    ⟨hgoes.1, fun a ha => ⟨_, rfl, hgoes.1, (Script.program_tallies _ _).ends _ a ha⟩⟩
  obtain ⟨_, ⟨es, rfl, horder, htally⟩, rfl⟩ := htallies.lower_eq_ok h
  exact ⟨es, rfl, horder, htally⟩

/-- The code of a program is made of what its constructs make, each of them once. The slots are
those of the declarations, in the order in which lowering comes to them, and the registers are
numbered from zero, each of them written once. -/
theorem CheckedProgram.lower_counts {p : CheckedProgram} {name : String} {m : Code.Module}
    (h : p.lower name = .ok m) :
    ∃ f, m.functions = [f] ∧ f.name = entryName ∧
      f.slots.toList.map some = p.program.declarations.map (Stmt.slot? p.annotations) ∧
      f.blocks.size = 1 + 3 * (p.program.count .conditional + p.program.count .loop) +
        (p.program.count .breakLoop + p.program.count .continueLoop) ∧
      f.count .call = p.program.count .print ∧
      f.count .store = p.program.count .declaration + p.program.count .assignment ∧
      f.count .load = p.program.count .load ∧
      (registersOf (instructionsOf f.blocks)).Perm (List.range
        (p.program.count .load + p.program.count .binary + p.program.count .minus)) := by
  obtain ⟨es, hm, horder, htally⟩ := p.lower_tally h
  obtain ⟨hblock, hcall, hstore, hload, hregister⟩ := count_itemsFor p.program.parts
  have hmade := htally.made.count_eq
  refine ⟨_, hm, rfl, ?_, ?_, ?_, ?_, ?_, ?_⟩
  · change (replay .initial es).builder.slots.toList.map some = _
    rw [replay_slots]
    exact htally.slots
  · change (replay .initial es).builder.blocks.size = _
    rw [replay_blocks_size, hmade, hblock, ← Nat.add_assoc]
    rfl
  · exact (horder.count (by decide) (by decide)).trans ((hmade _).trans hcall)
  · exact (horder.count (by decide) (by decide)).trans ((hmade _).trans hstore)
  · exact (horder.count (by decide) (by decide)).trans ((hmade _).trans hload)
  · refine ((horder.code_perm _ _).filterMap _).trans (.of_eq ?_)
    change registersOf (emitted es) = _
    rw [htally.registers, hregister, List.range_eq_range']
    rfl

theorem exists_lower_counts : ∃ p m f,
    checkSource ("var x = 1; while x < 9 \x7b if -x < 2 \x7b x = x + 1; \x7d else if true " ++
      "\x7b break; const d = x; \x7d continue; \x7d var y = \x7b const z = x; z * 2; \x7d; " ++
      "print y;") "counts" = .ok p ∧
    p.lower "counts" = .ok m ∧ m.functions = [f] ∧
    f.slots.toList.map some =
      [some ⟨"x", .int⟩, some ⟨"d", .int⟩, some ⟨"z", .int⟩, some ⟨"y", .int⟩] ∧
    f.blocks.size = 12 ∧ f.count .call = 1 ∧ f.count .store = 5 ∧ f.count .load = 7 ∧
    (registersOf (instructionsOf f.blocks)).Perm (List.range 12) := by
  have hcheck : (checkSource
      ("var x = 1; while x < 9 \x7b if -x < 2 \x7b x = x + 1; \x7d else if true " ++
        "\x7b break; const d = x; \x7d continue; \x7d var y = \x7b const z = x; z * 2; \x7d; " ++
        "print y;")
      "counts").toOption.bind (fun p => (p.lower "counts").toOption.map fun _ =>
        (p.program.declarations.map (Stmt.slot? p.annotations),
        [.conditional, .loop, .breakLoop, .continueLoop, .print, .declaration, .assignment, .load,
          .binary, .minus].map p.program.count)) =
      some ([some ⟨"x", .int⟩, some ⟨"d", .int⟩, some ⟨"z", .int⟩, some ⟨"y", .int⟩],
        [2, 1, 1, 1, 1, 4, 1, 7, 4, 1]) := by
    decide +kernel
  obtain ⟨p, hp, hcheck⟩ := Option.bind_eq_some_iff.1 hcheck
  obtain ⟨m, hm, hcheck⟩ := Option.map_eq_some_iff.1 hcheck
  have hm := toOption_eq_some.1 hm
  obtain ⟨f, hf, -, hslots, hblocks, hcall, hstore, hload, hregisters⟩ := p.lower_counts hm
  simp only [Prod.mk.injEq, List.map_cons, List.map_nil, List.cons.injEq] at hcheck
  obtain ⟨hdeclared, h⟩ := hcheck
  simp only [h] at hblocks hcall hstore hload hregisters
  exact ⟨p, m, f, toOption_eq_some.1 hp, hm, hf, hslots.trans hdeclared, hblocks, hcall, hstore,
    hload, hregisters⟩

end Leveret
