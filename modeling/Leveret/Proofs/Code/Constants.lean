import Leveret.Proofs.Code.Agreement
import Leveret.Proofs.Code.Ledger

/-!
# Constants are stored once

The checker turns down every assignment to a constant, and it looks a name up in scopes that match
those of lowering. So in the code of an accepted program the slot of a constant is stored to where
it is declared and nowhere else.
-/

namespace Leveret

namespace Code

open Lowering

/-- The slots of the declarations begin at `start`, and `isConst` is right about them. -/
def Marks (isConst : Nat → Bool) (start : Nat) (declared : List Stmt) : Prop :=
  ∀ k t, declared[k]? = some t → isConst (start + k) = t.isConstant

theorem Marks.left {isConst : Nat → Bool} {start : Nat} {declared declared' : List Stmt}
    (h : Marks isConst start (declared ++ declared')) : Marks isConst start declared := by
  intro k t ht
  refine h k t ?_
  rw [List.getElem?_append_left (List.getElem?_eq_some_iff.1 ht).1]
  exact ht

theorem Marks.right {isConst : Nat → Bool} {start : Nat} {declared declared' : List Stmt}
    (h : Marks isConst start (declared ++ declared')) :
    Marks isConst (start + declared.length) declared' := by
  intro k t ht
  rw [Nat.add_assoc]
  refine h _ t ?_
  rw [List.getElem?_append_right (Nat.le_add_right _ _), Nat.add_sub_cancel_left]
  exact ht

def Flagged (isConst : Nat → Bool) (d : Declaration) (slot : Nat) : Prop :=
  isConst slot = d.isConst

theorem binaryInstruction?_target {op : BinaryOp} {ty : Ty} {dest : Nat} {a b : Operand}
    {i : Instruction} (h : Lowering.binaryInstruction? op ty dest a b = some i) :
    i.target? = none := by
  obtain ⟨-, ⟨ty', hgives⟩, -⟩ := binaryInstruction?_eq_some h
  cases i with
  | store => cases hgives
  | _ => rfl

namespace Script

/-- The script keeps a ledger of the declarations, and comes to what `post` says. -/
def Records {α : Type} (isConst : Nat → Bool) (types : Annotations) (declared : List Stmt)
    (x : Script α) (s : State) (post : α → State → Prop) : Prop :=
  ∀ a, (x.run s).2 = .ok a →
    Ledger isConst types declared s (x.run s).1 ∧ post a (replay s (x.run s).1)

def Stays {α : Type} (s : State) (_ : α) (s' : State) : Prop := s'.scopes = s.scopes

section Records

variable {α β : Type} {isConst : Nat → Bool} {types : Annotations} {declared declared' : List Stmt}
  {s : State} {x : Script α} {f : α → Script β} {mid post : α → State → Prop}
  {last : β → State → Prop}

theorem Records.pure {a : α} (h : post a s) : Records isConst types [] (pure a) s post := by
  intro a' ha
  cases ha
  exact ⟨.nil, h⟩

theorem Records.fail {position : Position} {message : String} :
    Records isConst types declared (fail position message) s post := nofun

theorem Records.look {g : State → α} :
    Records isConst types [] (look g) s fun a s' => g s = a ∧ s = s' := by
  intro a ha
  cases ha
  exact ⟨.nil, rfl, rfl⟩

theorem Records.edit {e : Edit} (he : e.Plain isConst) :
    Records isConst types [] (edit e) s fun _ s' => e.apply s = s' :=
  fun _ _ => ⟨.plain he, rfl⟩

theorem Records.bind (hx : Records isConst types declared x s mid)
    (hf : ∀ a s', mid a s' → s'.builder.slots.size = s.builder.slots.size + declared.length →
      Records isConst types declared' (f a) s' last) :
    Records isConst types (declared ++ declared') (x >>= f) s last := by
  intro b hb
  have hbind : (x >>= f).run s = x.andThen f s := rfl
  rw [hbind, andThen] at hb ⊢
  rcases hrun : x.run s with ⟨edits, d | a⟩
  · rw [hrun] at hb
    cases hb
  · rw [hrun] at hb
    have hmid := hx a
    rw [hrun] at hmid
    obtain ⟨hledger, hmid⟩ := hmid rfl
    obtain ⟨hledger', hlast⟩ := hf a _ hmid hledger.size b hb
    refine ⟨hledger.append hledger', ?_⟩
    change last b (replay s (edits ++ _))
    rw [replay_append]
    exact hlast

theorem Records.first (hx : Records isConst types [] x s mid)
    (hf : ∀ a s', mid a s' → s'.builder.slots.size = s.builder.slots.size →
      Records isConst types declared (f a) s' last) :
    Records isConst types declared (x >>= f) s last := hx.bind hf

theorem Records.andThen (hx : Records isConst types declared x s mid)
    (hf : ∀ a s', mid a s' → Records isConst types [] (f a) s' last) :
    Records isConst types declared (x >>= f) s last := by
  have h := hx.bind fun a s' hmid _ => hf a s' hmid
  rwa [List.append_nil] at h

theorem Records.ending {e : Edit} (hx : Records isConst types declared x s mid)
    (he : e.Plain isConst) (h : ∀ a s', mid a s' → post a (e.apply s')) :
    Records isConst types declared (ending x e) s post := by
  intro a ha
  obtain ⟨hledger, hmid⟩ := hx a ha
  have hledger' := hledger.append (.plain he)
  rw [List.append_nil] at hledger'
  refine ⟨hledger', ?_⟩
  change post a (replay s ((x.run s).1 ++ [e]))
  rw [replay_append]
  exact h _ _ hmid

theorem Records.mono (hx : Records isConst types declared x s mid)
    (h : ∀ a s', mid a s' → post a s') : Records isConst types declared x s post :=
  fun a ha => ⟨(hx a ha).1, h _ _ (hx a ha).2⟩

/-! ## Steps -/

theorem liftScope_records {position : Position} {r : Except ScopeError α} :
    Records isConst types [] (liftScope position r) s fun a s' => r = .ok a ∧ s = s' := by
  cases r with
  | ok a => exact .pure ⟨rfl, rfl⟩
  | error e => exact .fail

theorem typeOf_records {id : Nat} {position : Position} :
    Records isConst types [] (typeOf types id position) s
      fun ty s' => types[id]? = some ty ∧ s = s' := by
  unfold typeOf
  cases hty : types[id]? with
  | none => exact .fail
  | some ty => exact .pure ⟨rfl, rfl⟩

theorem typeOf_of_noted {id : Nat} {position : Position} {ty : Ty} (h : types[id]? = some ty) :
    (typeOf types id position : Script Ty) = Pure.pure ty := by
  rw [typeOf, h]

theorem require_records {position : Position} {r : Option Operand} :
    Records isConst types [] (require position r) s fun _ s' => s = s' := by
  cases r with
  | none => exact .fail
  | some o => exact .pure rfl

theorem operand_records {e : Expr}
    (h : Records isConst types declared (expr types e) s (Stays s)) :
    Records isConst types declared (do require e.position (← expr types e)) s (Stays s) := by
  refine h.andThen fun r s₁ h₁ => require_records.mono ?_
  rintro o _ rfl
  exact h₁

theorem operand_bind {e : Expr} {f : Operand → Script β}
    (h : Records isConst types declared (expr types e) s (Stays s))
    (hf : ∀ o s', Stays s o s' → s'.builder.slots.size = s.builder.slots.size + declared.length →
      Records isConst types declared' (f o) s' last) :
    Records isConst types (declared ++ declared') (do f (← require e.position (← expr types e))) s
      last := by
  refine h.bind fun r s₁ h₁ n₁ => .first require_records ?_
  rintro o _ rfl -
  exact hf o s₁ h₁ n₁

theorem resolve_records {position : Position} {name : String} :
    Records isConst types [] (resolve position name) s
      fun r s' => s.scopes.find? name = some r.1 ∧ s = s' := by
  unfold resolve
  refine .first .look ?_
  rintro _ _ ⟨rfl, rfl⟩ -
  refine .first liftScope_records ?_
  rintro slot _ ⟨hslot, rfl⟩ -
  refine .first .look ?_
  rintro _ _ ⟨rfl, rfl⟩ -
  refine .pure ⟨?_, rfl⟩
  unfold Chain.resolve at hslot
  cases hf : s.scopes.find? name with
  | none =>
    rw [hf] at hslot
    cases hslot
  | some found =>
    rw [hf] at hslot
    cases hslot
    rfl

theorem edit_records {e : Edit} (he : e.Plain isConst) (hscopes : (e.apply s).scopes = s.scopes) :
    Records isConst types [] (edit e) s (Stays s) := by
  refine (Records.edit he).mono ?_
  rintro _ _ rfl
  exact hscopes

theorem createBlock_records {name : String} :
    Records isConst types [] (createBlock name) s (Stays s) := by
  unfold createBlock
  refine .first .look ?_
  rintro _ _ ⟨rfl, rfl⟩ -
  exact .first (edit_records trivial rfl) fun _ s₁ h₁ _ => .pure h₁

theorem freshRegister_records : Records isConst types [] freshRegister s (Stays s) := by
  unfold freshRegister
  refine .first .look ?_
  rintro _ _ ⟨rfl, rfl⟩ -
  exact .first (edit_records trivial rfl) fun _ s₁ h₁ _ => .pure h₁

theorem emit_records {i : Instruction} (hi : i.target? = none) :
    Records isConst types [] (edit (.emit i)) s (Stays s) := by
  refine edit_records (fun slot hslot => ?_) rfl
  rw [hi] at hslot
  cases hslot

theorem unary_records {op : UnaryOp} {ty : Ty} {o : Operand} :
    Records isConst types [] (unary op ty o) s (Stays s) := by
  cases op with
  | plus => exact .pure rfl
  | minus =>
    refine .first freshRegister_records fun dest s₁ h₁ _ => ?_
    exact .first (emit_records rfl) fun _ s₂ h₂ _ => .pure (h₂.trans h₁)

theorem binary_records {position : Position} {op : BinaryOp} {ty : Ty} {a b : Operand} :
    Records isConst types [] (binary position op ty a b) s (Stays s) := by
  unfold binary
  refine .first freshRegister_records fun dest s₁ h₁ _ => ?_
  cases hi : Lowering.binaryInstruction? op ty dest a b with
  | none => exact .fail
  | some i =>
    exact .first (emit_records (binaryInstruction?_target hi)) fun _ s₂ h₂ _ =>
      .pure (h₂.trans h₁)

theorem load_records {position : Position} {name : String} :
    Records isConst types [] (load position name) s (Stays s) := by
  unfold load
  refine .first resolve_records ?_
  rintro r _ ⟨-, rfl⟩ -
  refine .first freshRegister_records fun dest s₁ h₁ _ => ?_
  exact .first (emit_records rfl) fun _ s₂ h₂ _ => .pure (h₂.trans h₁)

theorem assign_records {position : Position} {name : String} {o : Operand}
    (h : ∀ slot, s.scopes.find? name = some slot → isConst slot = false) :
    Records isConst types [] (assign position name o) s (Stays s) := by
  unfold assign
  refine .first resolve_records ?_
  rintro r _ ⟨hslot, rfl⟩ -
  refine edit_records ?_ rfl
  rintro _ ⟨⟩
  exact h _ hslot

theorem declare_run (position : Position) (name : String) (ty : Ty) (o : Operand) (s : State) :
    (declare position name ty o : Script Unit).run s =
      match s.scopes.declare name s.builder.slots.size with
      | .ok _ => (allocation s.builder.slots.size name ty o, .ok ())
      | .error e => ([.allocateSlot name ty, .emit (.store s.builder.slots.size ty o)],
          .error ⟨.codegenError e.message, position⟩) := by
  change Prod.map ([.allocateSlot name ty] ++ ·) id
    (Prod.map ([.emit (.store s.builder.slots.size ty o)] ++ ·) id
      (Prod.map ([] ++ ·) id
        (andThen (liftScope position (s.scopes.declare name s.builder.slots.size))
          (fun _ => edit (.declare name s.builder.slots.size)) _))) = _
  cases s.scopes.declare name s.builder.slots.size <;> rfl

theorem allocation_scopes {name : String} {ty : Ty} {o : Operand} {scopes : Chain Nat}
    (h : s.scopes.declare name s.builder.slots.size = .ok scopes) :
    (replay s (allocation s.builder.slots.size name ty o)).scopes = scopes := by
  let stored : State := { s with builder :=
    (s.builder.allocateSlot name ty).2.emit (.store s.builder.slots.size ty o) }
  have hdeclare : stored.scopes.declare name s.builder.slots.size = .ok scopes := h
  exact congrArg State.scopes (Edit.apply_declare hdeclare)

theorem declare_records {t : Stmt} {x : Script Operand} {name : String} {ty : Ty}
    (hname : t.name? = some name) (hty : types[t.id]? = some ty)
    (hrun : ∃ position, (stmt types t : Script (Option Operand)).run s =
      (do declare position name ty (← x); return none : Script (Option Operand)).run s)
    (hx : Records isConst types declared x s (Stays s)) :
    Records isConst types (declared ++ [t]) (stmt types t) s fun _ s' =>
      s.scopes.Adds name (s.builder.slots.size + declared.length) s'.scopes := by
  intro a ha
  obtain ⟨position, hrun⟩ := hrun
  change _ = x.andThen (fun o => declare position name ty o >>= fun _ => Pure.pure none) s at hrun
  rw [andThen] at hrun
  rcases hedits : x.run s with ⟨es, d | o⟩
  · rw [hedits] at hrun
    rw [hrun] at ha
    cases ha
  rw [hedits] at hrun
  obtain ⟨hledger, hstays⟩ := hx o (by rw [hedits])
  rw [hedits] at hledger hstays
  change _ = Prod.map (es ++ ·) id (andThen (declare position name ty o) _ _) at hrun
  rw [andThen, declare_run] at hrun
  cases hd : (replay s es).scopes.declare name (replay s es).builder.slots.size with
  | error e =>
    rw [hd] at hrun
    rw [hrun] at ha
    cases ha
  | ok scopes =>
    rw [hd] at hrun
    replace hrun : (stmt types t : Script (Option Operand)).run s =
      (es ++ allocation (replay s es).builder.slots.size name ty o, .ok none) := hrun
    rw [hrun]
    refine ⟨hledger.declaration rfl (Stmt.slot?_eq_some.2 ⟨hname, hty⟩) hrun, ?_⟩
    have hadds := Chain.declare_eq_ok.1 hd
    rw [hstays, hledger.size] at hadds
    dsimp only
    rw [replay_append, allocation_scopes hd]
    exact hadds

theorem jump_records {position : Position} {target : LoopTargets → Nat} :
    Records isConst types [] (jump position target) s (Stays s) := by
  unfold jump
  refine .first .look ?_
  rintro loops _ ⟨-, rfl⟩ -
  cases loops with
  | nil => exact .fail
  | cons targets rest =>
    refine .first (edit_records trivial rfl) fun _ s₁ h₁ _ => ?_
    refine .first createBlock_records fun dead s₂ h₂ _ => ?_
    exact .mono (edit_records trivial rfl) fun _ s₃ h₃ => h₃.trans (h₂.trans h₁)

/-! ## Blocks, branches and loops -/

theorem inFrame_records (h : Records isConst types declared x { s with scopes := s.scopes.push }
    fun _ s' => s'.scopes.pop = s.scopes) :
    Records isConst types declared (inFrame x) s (Stays s) := by
  unfold inFrame
  refine .first (.edit trivial) ?_
  rintro _ _ rfl -
  exact h.ending trivial fun _ _ hs' => hs'

/-- A part of a construct that is begun with the names of `s` and with new slots for what was
declared in the construct before. -/
def Resumes (isConst : Nat → Bool) (types : Annotations) (s : State) (before declared : List Stmt)
    (x : Script α) : Prop :=
  ∀ s', s'.scopes = s.scopes → s'.builder.slots.size = s.builder.slots.size + before.length →
    Records isConst types declared x s' (Stays s)

theorem Resumes.discard {before : List Stmt} (h : Resumes isConst types s before declared x) :
    Resumes isConst types s before declared (discard x) :=
  fun s' hs' hn' => (h s' hs' hn').andThen fun _ _ h' => .pure h'

theorem fill_records {block next : Nat} {before : List Stmt} {s₀ : State}
    (h : Resumes isConst types s₀ before declared x) (hs : s.scopes = s₀.scopes)
    (hn : s.builder.slots.size = s₀.builder.slots.size + before.length) :
    Records isConst types declared (fill block next x) s (Stays s₀) := by
  unfold fill
  refine .first (edit_records trivial rfl) fun _ s₁ h₁ n₁ => ?_
  refine (h s₁ (h₁.trans hs) (n₁.trans hn)).andThen fun _ s₂ h₂ => ?_
  exact .mono (edit_records trivial rfl) fun _ s₃ h₃ => h₃.trans h₂

theorem ifElse_records {o : Operand} {x y : Script Unit}
    (hx : Resumes isConst types s [] declared x)
    (hy : Resumes isConst types s declared declared' y) :
    Records isConst types (declared ++ declared') (ifElse o x y) s (Stays s) := by
  unfold ifElse
  refine .first createBlock_records fun onTrue s₁ h₁ n₁ => ?_
  refine .first createBlock_records fun onFalse s₂ h₂ n₂ => ?_
  refine .first createBlock_records fun merge s₃ h₃ n₃ => ?_
  refine .first (edit_records trivial rfl) fun _ s₄ h₄ n₄ => ?_
  have hscopes : s₄.scopes = s.scopes := h₄.trans (h₃.trans (h₂.trans h₁))
  have hsize : s₄.builder.slots.size = s.builder.slots.size := n₄.trans (n₃.trans (n₂.trans n₁))
  refine .bind (fill_records hx hscopes hsize) fun _ s₅ h₅ n₅ => ?_
  refine (fill_records hy h₅ (hsize ▸ n₅)).andThen fun _ s₆ h₆ => ?_
  exact .mono (edit_records trivial rfl) fun _ s₇ h₇ => h₇.trans h₆

theorem whileLoop_records {x : Script Operand} {y : Script Unit}
    (hx : Resumes isConst types s [] declared x)
    (hy : Resumes isConst types s declared declared' y) :
    Records isConst types (declared ++ declared') (whileLoop x y) s (Stays s) := by
  unfold whileLoop
  refine .first createBlock_records fun header s₁ h₁ n₁ => ?_
  refine .first createBlock_records fun inside s₂ h₂ n₂ => ?_
  refine .first createBlock_records fun exit s₃ h₃ n₃ => ?_
  refine .first (edit_records trivial rfl) fun _ s₄ h₄ n₄ => ?_
  refine .first (edit_records trivial rfl) fun _ s₅ h₅ n₅ => ?_
  have hscopes : s₅.scopes = s.scopes := h₅.trans (h₄.trans (h₃.trans (h₂.trans h₁)))
  have hsize : s₅.builder.slots.size = s.builder.slots.size :=
    n₅.trans (n₄.trans (n₃.trans (n₂.trans n₁)))
  refine .bind (hx s₅ hscopes hsize) fun test s₆ h₆ n₆ => ?_
  refine .first (edit_records trivial rfl) fun _ s₇ h₇ n₇ => ?_
  have hloop : Resumes isConst types s declared declared' (inLoop ⟨header, exit⟩ y) := by
    intro s' hs' hn'
    unfold inLoop
    refine .first (edit_records trivial rfl) fun _ s₁ h₁ n₁ => ?_
    exact (hy s₁ (h₁.trans hs') (n₁.trans hn')).ending trivial fun _ _ h₂ => h₂
  refine (fill_records hloop (h₇.trans h₆) (n₇.trans (hsize ▸ n₆))).andThen fun _ s₈ h₈ => ?_
  exact .mono (edit_records trivial rfl) fun _ s₉ h₉ => h₉.trans h₈

end Records

/-! ## The whole tree -/

section Trees

variable {isConst : Nat → Bool} {types : Annotations} {Γ Γ' : Chain Declaration} {s s' : State}

/-- Statements lead to scopes that match `Γ'`, with the outer frames as they were. -/
def Arrives {α : Type} (isConst : Nat → Bool) (Γ' : Chain Declaration) (s : State) (_ : α)
    (s' : State) : Prop :=
  Γ'.Match (Flagged isConst) s'.scopes ∧ s'.scopes.pop = s.scopes.pop

theorem Stays.matches {α : Type} {a : α} (h : Stays s a s')
    (hs : Γ.Match (Flagged isConst) s.scopes) : Γ.Match (Flagged isConst) s'.scopes := by
  rw [h]
  exact hs

theorem Stays.arrives {α β : Type} {a : α} {b : β} (h : Stays s a s')
    (hs : Γ.Match (Flagged isConst) s.scopes) : Arrives isConst Γ s b s' :=
  ⟨h.matches hs, congrArg Chain.pop h⟩

theorem Stays.then {α β : Type} {a : α} {b : β} {s₁ : State} (h : Stays s a s₁)
    (h' : Arrives isConst Γ' s₁ b s') : Arrives isConst Γ' s b s' :=
  ⟨h'.1, h'.2.trans (congrArg Chain.pop h)⟩

theorem arrives_declare {α : Type} {a : α} {name : String} {d : Declaration} {slot : Nat}
    (hs : Γ.Match (Flagged isConst) s.scopes) (hΓ : Γ.Adds name d Γ')
    (hd : isConst slot = d.isConst) (ha : s.scopes.Adds name slot s'.scopes) :
    Arrives isConst Γ' s a s' := by
  obtain ⟨scopes, ha', hm⟩ := hs.adds hΓ hd
  cases (Chain.declare_eq_ok.2 ha).symm.trans (Chain.declare_eq_ok.2 ha')
  exact ⟨hm, ha.pop⟩

end Trees

mutual

theorem expr_records {isConst types Γ e ty} : Expr.HasType (Annotations.Notes types) Γ e ty →
    ∀ s, Γ.Match (Flagged isConst) s.scopes →
    Marks isConst s.builder.slots.size (declaredIn e.parts) →
    Records isConst types (declaredIn e.parts) (expr types e) s (Stays s)
  | .literal _, s, _, _ => by
    rw [expr]
    exact .pure rfl
  | .unary h _ _, s, hs, hm => by
    simp only [Expr.parts, declaredIn_append, declaredIn_expr] at hm ⊢
    rw [expr]
    refine .first typeOf_records ?_
    rintro ty _ ⟨-, rfl⟩ -
    refine operand_bind (expr_records h s hs hm.left) fun o s₁ h₁ _ => ?_
    exact .first unary_records fun _ s₂ h₂ _ => .pure (h₂.trans h₁)
  | .binary h h' _ _, s, hs, hm => by
    simp only [Expr.parts, declaredIn_append, declaredIn_expr, List.append_assoc] at hm ⊢
    rw [expr]
    refine .first typeOf_records ?_
    rintro ty _ ⟨-, rfl⟩ -
    refine operand_bind (expr_records h s hs hm.left) fun o s₁ h₁ n₁ => ?_
    have hm₁ := n₁ ▸ hm.right
    refine operand_bind (expr_records h' s₁ (h₁.matches hs) hm₁.left) fun o' s₂ h₂ _ => ?_
    exact .first binary_records fun _ s₃ h₃ _ => .pure (h₃.trans (h₂.trans h₁))
  | .load _ _, s, _, _ => by
    rw [expr]
    exact .first load_records fun _ s₁ h₁ _ => .pure h₁
  | .compound h _, s, hs, hm => by
    simp only [Expr.parts, declaredIn_append, declaredIn_expr, List.append_nil] at hm ⊢
    rw [expr]
    exact block_records h s hs hm

theorem block_records {isConst types inLoop Γ b ty} :
    Block.HasType (Annotations.Notes types) inLoop Γ b ty →
    ∀ s, Γ.Match (Flagged isConst) s.scopes →
    Marks isConst s.builder.slots.size (declaredIn b.parts) →
    Records isConst types (declaredIn b.parts) (block types b) s (Stays s)
  | .intro h, s, hs, hm => by
    simp only [Block.parts] at hm ⊢
    rw [block]
    exact inFrame_records ((stmts_records h { s with scopes := s.scopes.push } none hs.push
      hm).mono fun _ s₁ h₁ => h₁.2)

theorem stmt_records {isConst types inLoop Γ Γ' t ty} :
    Stmt.WellTyped (Annotations.Notes types) inLoop Γ t Γ' ty →
    ∀ s, Γ.Match (Flagged isConst) s.scopes →
    Marks isConst s.builder.slots.size (declaredIn t.parts) →
    Records isConst types (declaredIn t.parts) (stmt types t) s (Arrives isConst Γ' s)
  | @Stmt.WellTyped.declareZero _ _ _ _ _ ty _ hn ha, s, hs, hm => by
    simp only [Stmt.parts, declaredIn_stmt, Stmt.name?, Option.map_some, Option.toList_some]
      at hm ⊢
    rw [← List.nil_append [_]]
    refine .mono (declare_records rfl hn ?_ (.pure (a := .constant (.zero ty)) rfl)) fun _ s₁ ha' =>
      arrives_declare hs ha (hm 0 _ rfl) ha'
    rw [stmt, typeOf_of_noted hn]
    exact ⟨_, rfl⟩
  | .declareVar h _ hn ha, s, hs, hm | .declareConst h _ hn ha, s, hs, hm => by
    simp only [Stmt.parts, declaredIn_append, declaredIn_stmt, Stmt.name?, Option.map_some,
      Option.toList_some] at hm ⊢
    refine .mono (declare_records rfl hn ?_ (operand_records (expr_records h s hs hm.left)))
      fun _ s₁ ha' => arrives_declare hs ha (hm.right 0 _ rfl) ha'
    rw [stmt, typeOf_of_noted hn]
    simp only [pure_bind, bind_assoc]
    exact ⟨_, rfl⟩
  | .assign h hf, s, hs, hm => by
    simp only [Stmt.parts, declaredIn_append, declaredIn_stmt, Stmt.name?, Option.map_none,
      Option.toList_none] at hm ⊢
    rw [stmt]
    refine operand_bind (expr_records h s hs hm.left) fun o s₁ h₁ _ => ?_
    refine .first (assign_records fun slot hslot => ?_) fun _ s₂ h₂ _ =>
      .pure (h₁.then (h₂.arrives (h₁.matches hs)))
    -- The checker has found a variable, and lowering finds the slot of that variable.
    obtain ⟨slot', hslot', hflag⟩ := (h₁.matches hs).resolve hf
    cases hslot.symm.trans hslot'
    exact hflag
  | .print h, s, hs, hm => by
    simp only [Stmt.parts, declaredIn_append, declaredIn_stmt, Stmt.name?, Option.map_none,
      Option.toList_none] at hm ⊢
    rw [stmt]
    refine .first typeOf_records ?_
    rintro ty _ ⟨-, rfl⟩ -
    refine operand_bind (expr_records h s hs hm.left) fun o s₁ h₁ _ => ?_
    exact .first (emit_records rfl) fun _ s₂ h₂ _ => .pure (h₁.then (h₂.arrives (h₁.matches hs)))
  | .ifOnly h hb, s, hs, hm => by
    simp only [Stmt.parts, declaredIn_append, declaredIn_stmt, Stmt.name?, Option.map_none,
      Option.toList_none, List.append_assoc] at hm ⊢
    rw [stmt]
    refine operand_bind (expr_records h s hs hm.left) fun o s₁ h₁ n₁ => ?_
    have hm₁ := n₁ ▸ hm.right
    refine .andThen (ifElse_records (.discard fun s₂ h₂ n₂ => ?_) fun s₂ h₂ n₂ => .pure h₂)
      fun _ s₂ h₂ => .pure (h₁.then (h₂.arrives (h₁.matches hs)))
    exact (block_records hb s₂ (h₂ ▸ h₁.matches hs) (n₂ ▸ hm₁.left)).mono
      fun _ s₃ h₃ => h₃.trans h₂
  | .ifElse h hb hb', s, hs, hm => by
    simp only [Stmt.parts, declaredIn_append, declaredIn_stmt, Stmt.name?, Option.map_none,
      Option.toList_none, List.append_nil, List.append_assoc] at hm ⊢
    rw [stmt]
    refine operand_bind (expr_records h s hs hm.left) fun o s₁ h₁ n₁ => ?_
    have hm₁ := n₁ ▸ hm.right
    refine .andThen (ifElse_records (.discard fun s₂ h₂ n₂ => ?_) (.discard fun s₂ h₂ n₂ => ?_))
      fun _ s₂ h₂ => .pure (h₁.then (h₂.arrives (h₁.matches hs)))
    · exact (block_records hb s₂ (h₂ ▸ h₁.matches hs) (n₂ ▸ hm₁.left)).mono
        fun _ s₃ h₃ => h₃.trans h₂
    · exact (block_records hb' s₂ (h₂ ▸ h₁.matches hs) (n₂ ▸ hm₁.right)).mono
        fun _ s₃ h₃ => h₃.trans h₂
  | .whileLoop h hb, s, hs, hm => by
    simp only [Stmt.parts, declaredIn_append, declaredIn_stmt, Stmt.name?, Option.map_none,
      Option.toList_none, List.append_nil] at hm ⊢
    rw [stmt]
    refine .andThen (whileLoop_records (fun s₁ h₁ n₁ => ?_) (.discard fun s₁ h₁ n₁ => ?_))
      fun _ s₂ h₂ => .pure (h₂.arrives hs)
    · exact (operand_records (expr_records h s₁ (h₁ ▸ hs) (n₁ ▸ hm.left))).mono
        fun _ s₂ h₂ => h₂.trans h₁
    · exact (block_records hb s₁ (h₁ ▸ hs) (n₁ ▸ hm.right)).mono fun _ s₂ h₂ => h₂.trans h₁
  | .breakLoop, s, hs, _ | .continueLoop, s, hs, _ => by
    rw [stmt]
    exact .first jump_records fun _ s₁ h₁ _ => .pure (h₁.arrives hs)
  | .expr h, s, hs, hm => by
    simp only [Stmt.parts, declaredIn_append, declaredIn_stmt, Stmt.name?, Option.map_none,
      Option.toList_none, List.append_nil] at hm ⊢
    rw [stmt]
    exact (expr_records h s hs hm).mono fun _ s₁ h₁ => h₁.arrives hs

theorem stmts_records {isConst types inLoop Γ Γ' last list ty} :
    Sequence (Annotations.Notes types) inLoop Γ last list Γ' ty →
    ∀ s (r : Option Operand), Γ.Match (Flagged isConst) s.scopes →
    Marks isConst s.builder.slots.size (declaredIn (partsAll list)) →
    Records isConst types (declaredIn (partsAll list)) (stmts types r list) s
      (Arrives isConst Γ' s)
  | .nil, s, r, hs, _ => by
    rw [stmts]
    exact .pure ⟨hs, rfl⟩
  | .cons h hrest, s, r, hs, hm => by
    simp only [partsAll, declaredIn_append] at hm ⊢
    rw [stmts]
    refine .bind (stmt_records h s hs hm.left) fun r' s₁ h₁ n₁ => ?_
    exact (stmts_records hrest s₁ r' h₁.1 (n₁ ▸ hm.right)).mono fun _ s₂ h₂ =>
      ⟨h₂.1, h₂.2.trans h₁.2⟩

end

/-- The ledger of a whole program has all its declarations. -/
theorem program_records {p : CheckedProgram} (hp : p.WellTyped) :
    Records (fun slot => p.program.declarations[slot]?.any Stmt.isConstant) p.annotations
      p.program.declarations (program p.annotations p.program.statements) .initial
      fun _ _ => True := by
  obtain ⟨Γ, r, h⟩ := hp
  rw [program]
  refine (stmts_records h .initial none .initial fun k t ht => ?_).andThen fun _ s _ => ?_
  · change (p.program.declarations[0 + k]?).any Stmt.isConstant = _
    rw [Nat.zero_add, show p.program.declarations[k]? = some t from ht]
    rfl
  · exact (Records.edit (e := .terminate _) trivial).mono fun _ _ _ => trivial

end Script

end Code

open Code

/-- A slot is made for every declaration of an accepted program, in order, and in the code the
slot of a constant is stored to by the declaration of that constant and by nothing else. -/
theorem checkSource_const_stored_once {source file : String} {p : CheckedProgram}
    (h : checkSource source file = .ok p) (name : String) :
    let edits := ((Script.program p.annotations p.program.statements).run .initial).1
    ∃ m f, p.lower name = .ok m ∧ m.functions = [f] ∧
      f = (replay .initial edits).builder.function entryName .int ∧
      f.slots.toList.map some = p.program.declarations.map (Stmt.slot? p.annotations) ∧
      ∀ slot node ident declared init,
        p.program.declarations[slot]? = some (.declareConst node ident declared init) →
        ∃ ty o, p.annotations[node.id]? = some ty ∧
          Makes p.annotations (.declareConst node ident declared init) .initial edits
            slot ident ty o ∧
          storesTo slot (instructionsOf f.blocks) = [.store slot ty o] := by
  intro edits
  have hp := checkSource_wellTyped h
  have hgoes := Script.program_goes p.annotations p.program.statements
  obtain ⟨m, -, hm, -⟩ := program_code hp name
  have hrecords : Script.Goes (Script.program p.annotations p.program.statements) .initial
      fun _ s' => s' = replay .initial edits ∧ Ledger _ p.annotations p.program.declarations
        .initial edits :=
    ⟨hgoes.1, fun a ha => ⟨rfl, (Script.program_records hp a ha).1⟩⟩
  obtain ⟨s, ⟨rfl, hledger⟩, rfl⟩ := hrecords.lower_eq_ok hm
  refine ⟨_, _, hm, rfl, rfl, hledger.slots, fun slot node ident declared init ht => ?_⟩
  obtain ⟨_, ty, o, hslot, hmade⟩ := hledger.made slot _ ht
  obtain ⟨⟨rfl⟩, hty⟩ := Stmt.slot?_eq_some.1 hslot
  rw [show Lowering.State.initial.builder.slots.size + slot = slot from Nat.zero_add slot] at hmade
  refine ⟨ty, o, hty, hmade, ?_⟩
  have hperm := (hgoes.1.perm sane_initial).filter (·.target? = some slot)
  have hstore : storesTo slot (emitted edits) = [.store slot ty o] :=
    hledger.storesTo_eq (List.getElem?_eq_some_iff.1 ht).1 (Nat.zero_add slot)
      (by rw [ht]; rfl) hmade
  change (storesTo slot _).Perm (storesTo slot (emitted edits)) at hperm
  rw [hstore] at hperm
  exact hperm.eq_singleton

theorem exists_checkSource_const_stored_once : ∃ p m f node declared init o,
    checkSource "var x = 1; if x < 2 { const x = 7; { var x = x; x = x + 1; }; print x; } x = 5;"
      "names" = .ok p ∧
    p.program.declarations[1]? = some (.declareConst node "x" declared init) ∧
    p.lower "names" = .ok m ∧ m.functions = [f] ∧
    storesTo 1 (instructionsOf f.blocks) = [.store 1 .int o] ∧
    (storesTo 0 (instructionsOf f.blocks)).length = 2 := by
  have hcheck : (checkSource
      "var x = 1; if x < 2 { const x = 7; { var x = x; x = x + 1; }; print x; } x = 5;"
      "names").toOption.map (fun p =>
        (p.program.declarations[1]?.map fun t => (t.isConstant, t.slot? p.annotations),
        (p.lower "names").toOption.map fun m => m.functions.map fun f =>
          (storesTo 0 (instructionsOf f.blocks)).length)) =
        some (some (true, some ⟨"x", .int⟩), some [2]) := by
    decide +kernel
  obtain ⟨p, hp, hcheck⟩ := Option.map_eq_some_iff.1 hcheck
  have hp := toOption_eq_some.1 hp
  obtain ⟨hdeclared, hcount⟩ := Prod.mk.inj hcheck
  obtain ⟨t, ht, hdeclared⟩ := Option.map_eq_some_iff.1 hdeclared
  obtain ⟨hconst, hslot⟩ := Prod.mk.inj hdeclared
  obtain ⟨m, f, hm, hf, -, -, honce⟩ := checkSource_const_stored_once hp "names"
  rw [hm] at hcount
  cases t with
  | declareConst node ident declared init =>
    obtain ⟨⟨⟩, hty⟩ := Stmt.slot?_eq_some.1 hslot
    obtain ⟨ty, o, hty', -, hstore⟩ := honce 1 node "x" declared init ht
    cases hty.symm.trans hty'
    refine ⟨p, m, f, node, declared, init, o, hp, ht, hm, hf, hstore, ?_⟩
    simpa [Except.toOption, hf] using hcount
  | _ => cases hconst

end Leveret
