import Leveret.Proofs.Code.Conduct

/-!
# Values that are there when they are needed

Whatever tree is lowered, each operand is a constant or a register that has been written, and each
slot that is loaded has been stored to.
-/

namespace Leveret.Code

open Lowering

/-- A constant, or a register that is known to be written. -/
def Operand.Known (known : List Fact) : Operand → Prop
  | register number => ∃ ty, .register number ty ∈ known
  | constant _ => True

theorem Operand.Known.mono {known known' : List Fact} {o : Operand} (h : o.Known known)
    (hk : known ⊆ known') : o.Known known' := by
  cases o with
  | constant _ => trivial
  | register n =>
    obtain ⟨ty, hty⟩ := h
    exact ⟨ty, hk hty⟩

def flow : Law where
  instruction _ known i := (∀ o ∈ i.operands, o.Known known) ∧
    ∀ dest slot ty, i = .load dest slot ty → .slot slot ∈ known
  test known o := o.Known known
  instruction_mono _ hk h := ⟨fun o ho => (h.1 o ho).mono hk,
    fun dest slot ty hi => hk (h.2 dest slot ty hi)⟩
  test_mono hk h := h.mono hk

/-! ## Places in the code -/

/-- There is an open block, and every name in scope has a slot that has been stored to. -/
structure Sited (s : State) (known : List Fact) : Prop where
  ready : s.builder.Ready
  stored : ∀ slot ∈ s.scopes.records, .slot slot ∈ known

namespace Sited

variable {law : Law} {s s' : State} {known known' : List Fact}

theorem push (h : Sited s known) : Sited { s with scopes := s.scopes.push } known :=
  ⟨h.ready, h.stored⟩

theorem later {b : Builder} (h : Sited s known) (hb : Script.Later s b) :
    Sited { s with builder := b } known := ⟨hb.2, h.stored⟩

theorem leads (h : Sited s known) (hl : Leads law s known s' known') : Sited s' known' where
  ready := (hl.develops.grown h.ready).ready
  stored slot hslot := hl.develops.subset (h.stored slot (hl.scopes ▸ hslot))

theorem adds {name : String} {scopes : Chain Nat} {b : Builder}
    (h : Sited s known) (hb : b.Ready) (ha : s.scopes.Adds name s.builder.slots.size scopes) :
    Sited ⟨b, scopes⟩ (.slot s.builder.slots.size :: known) := by
  refine ⟨hb, fun slot hslot => ?_⟩
  rw [ha.records, List.mem_cons] at hslot
  rcases hslot with rfl | hslot
  · exact List.mem_cons_self
  · exact List.mem_cons_of_mem _ (h.stored slot hslot)

end Sited

/-! ## Trees -/

namespace Script

section Parts

variable {s : State} {known : List Fact}

/-- Expressions and blocks lead to a place where their operand is known. -/
def Finds (s : State) (known : List Fact) (r : Option Operand) (s' : State) : Prop :=
  ∃ known', Leads flow s known s' known' ∧ ∀ o ∈ r, o.Known known'

def Does (s : State) (known : List Fact) (r : Option Operand) (s' : State) : Prop :=
  ∃ known', Proceeds flow s known s' known' ∧ Sited s' known' ∧ ∀ o ∈ r, o.Known known'

theorem Goes.found {α : Type} {x : Script (Option Operand)} {position : Position}
    {f : Operand → Script α} {post : α → State → Prop} (hx : Goes x s (Finds s known))
    (hf : ∀ o s' known', Leads flow s known s' known' → o.Known known' → Goes (f o) s' post) :
    Goes (x >>= fun r => require position r >>= f) s post := by
  refine .bind (hx.mono ?_)
  rintro r s' ⟨known', h, hr⟩
  exact .bind (require_goes fun o ho => hf o s' known' h (hr o ho))

theorem finds_compute {s' : State} {known' : List Fact} {i : Instruction} {ty : Ty}
    (h : Leads flow s known s' known')
    (hi : i.gives = [.register s'.builder.nextRegister ty])
    (hl : flow.instruction s'.builder.slots known' i) :
    Finds s known (some (.register s'.builder.nextRegister))
      { s' with builder := s'.builder.freshRegister.2.emit i } := by
  refine ⟨_, h.trans (.compute hi hl), ?_⟩
  rintro _ ⟨⟩
  exact ⟨ty, List.mem_cons_self⟩

theorem does_lead {s' : State} {known' : List Fact} (hs : Sited s known)
    (h : Leads flow s known s' known') : Does s known none s' :=
  ⟨known', h.proceeds, hs.leads h, nofun⟩

theorem does_perform {s' : State} {known' : List Fact} {i : Instruction}
    (hs : Sited s known) (h : Leads flow s known s' known')
    (hi : ∀ n ty, .register n ty ∉ i.gives) (hl : flow.instruction s'.builder.slots known' i) :
    Does s known none { s' with builder := s'.builder.emit i } :=
  does_lead hs (h.trans (.perform hi hl))

theorem does_declare {s' : State} {known' : List Fact} {name : String} {ty : Ty} {o : Operand}
    {scopes : Chain Nat} (hs : Sited s known) (h : Leads flow s known s' known')
    (ha : s'.scopes.Adds name s'.builder.slots.size scopes) (ho : o.Known known') :
    Does s known none
      ⟨(s'.builder.allocateSlot name ty).2.emit (.store s'.builder.slots.size ty o), scopes⟩ := by
  have hs' := hs.leads h
  have hready : ((s'.builder.allocateSlot name ty).2.emit
      (.store s'.builder.slots.size ty o)).Ready := Builder.emit_ready hs'.ready
  refine ⟨_, h.proceeds.trans (.declare ha ?_), hs'.adds hready ha, nofun⟩
  exact ⟨List.forall_mem_singleton.2 ho, nofun⟩

theorem does_jump {targets : LoopTargets} {rest : List LoopTargets} {target : LoopTargets → Nat}
    (hs : Sited s known) (hl : s.builder.loops = targets :: rest)
    (ht : target targets = targets.header ∨ target targets = targets.exit) :
    Does s known none { s with builder := s.builder.jump (.br (target targets)) } :=
  ⟨known, .jump hl ht, ⟨(Builder.jump_grown hs.ready).ready, hs.stored⟩, nofun⟩

end Parts

mutual

theorem expr_goes (types : Annotations) : (e : Expr) → ∀ {s : State} {known : List Fact},
    Sited s known → Goes (expr types e) s (Finds s known)
  | .literal _ value, s, known, hs => by
    rw [expr]
    refine .pure ⟨known, .refl, ?_⟩
    rintro _ ⟨⟩
    trivial
  | .unary node op operand, s, known, hs => by
    rw [expr]
    refine .bind (typeOf_goes fun ty _ => ?_)
    refine .found (expr_goes types operand hs) fun o s₁ known₁ h₁ ho => .bind ?_
    refine unary_goes (hs.leads h₁).ready (fun _ => .pure ⟨known₁, h₁, ?_⟩) fun _ => .pure ?_
    · rintro _ ⟨⟩
      exact ho
    · exact finds_compute h₁ rfl ⟨List.forall_mem_singleton.2 ho, nofun⟩
  | .binary node op left right, s, known, hs => by
    rw [expr]
    refine .bind (typeOf_goes fun ty _ => ?_)
    refine .found (expr_goes types left hs) fun x s₁ known₁ h₁ hx => ?_
    have hs₁ := hs.leads h₁
    refine .found (expr_goes types right hs₁) fun y s₂ known₂ h₂ hy => .bind ?_
    refine binary_goes (hs₁.leads h₂).ready fun i hi => .pure ?_
    obtain ⟨hoperands, ⟨ty', hgives⟩, hload⟩ := binaryInstruction?_eq_some hi
    refine finds_compute (h₁.trans h₂) hgives ⟨?_, fun dest slot ty h => (hload _ _ _ h).elim⟩
    rw [hoperands]
    -- the left operand was known before the right one was computed
    have hx := hx.mono h₂.develops.subset
    exact List.forall_mem_cons.2 ⟨hx, List.forall_mem_singleton.2 hy⟩
  | .load node name, s, known, hs => by
    rw [expr]
    refine .bind (load_goes hs.ready fun slot hslot => .pure ?_)
    refine finds_compute .refl rfl ⟨nofun, ?_⟩
    rintro _ _ _ ⟨⟩
    exact hs.stored slot (Chain.mem_records_of_find? hslot)
  | .compound _ body, s, known, hs => by
    rw [expr]
    exact block_goes types body hs

theorem block_goes (types : Annotations) : (b : Block) → ∀ {s : State} {known : List Fact},
    Sited s known → Goes (block types b) s (Finds s known)
  | ⟨_, statements⟩, s, known, hs => by
    rw [block]
    refine inFrame_goes ((stmts_goes types statements none hs.push nofun).mono ?_)
    rintro r s' ⟨known', h, -, hr⟩
    exact ⟨known', h.inFrame, hr⟩

theorem stmt_goes (types : Annotations) : (t : Stmt) → ∀ {s : State} {known : List Fact},
    Sited s known → Goes (stmt types t) s (Does s known)
  | .declareVar node name _ none, s, known, hs => by
    rw [stmt]
    refine .bind (typeOf_goes fun ty _ => .bind (declare_goes hs.ready fun scopes ha => .pure ?_))
    exact does_declare hs .refl ha trivial
  | .declareVar node name _ (some init), s, known, hs
  | .declareConst node name _ init, s, known, hs => by
    rw [stmt]
    refine .bind (typeOf_goes fun ty _ => ?_)
    refine .found (expr_goes types init hs) fun o s₁ known₁ h₁ ho => ?_
    refine .bind (declare_goes (hs.leads h₁).ready fun scopes ha => .pure ?_)
    exact does_declare hs h₁ ha ho
  | .assign node name value, s, known, hs => by
    rw [stmt]
    refine .found (expr_goes types value hs) fun o s₁ known₁ h₁ ho => ?_
    refine .bind (assign_goes (hs.leads h₁).ready fun slot _ => .pure ?_)
    refine does_perform hs h₁ (by simp [Instruction.gives]) ⟨?_, nofun⟩
    exact List.forall_mem_singleton.2 ho
  | .print _ value, s, known, hs => by
    rw [stmt]
    refine .bind (typeOf_goes fun ty _ => ?_)
    refine .found (expr_goes types value hs) fun o s₁ known₁ h₁ ho => ?_
    refine .bind (.edit (isTerminated_of_ready (hs.leads h₁).ready) (.pure ?_))
    refine does_perform hs h₁ (by simp [Instruction.gives]) ⟨?_, nofun⟩
    exact List.forall_mem_singleton.2 ho
  | .ifElse _ test consequence none, s, known, hs => by
    rw [stmt]
    refine .found (expr_goes types test hs) fun o s₁ known₁ h₁ ho => ?_
    have hs₁ := hs.leads h₁
    refine .bind ((ifElse_goes flow known₁ hs₁.ready ho (fun b hb => ?_) fun b hb => ?_).mono
      fun _ s₂ h₂ => .pure ?_)
    · exact discard_goes (block_goes types consequence (hs₁.later hb))
    · exact .pure ⟨known₁, .refl⟩
    · exact does_lead hs (h₁.trans h₂)
  | .ifElse _ test consequence (some alternative), s, known, hs => by
    rw [stmt]
    refine .found (expr_goes types test hs) fun o s₁ known₁ h₁ ho => ?_
    have hs₁ := hs.leads h₁
    refine .bind ((ifElse_goes flow known₁ hs₁.ready ho (fun b hb => ?_) fun b hb => ?_).mono
      fun _ s₂ h₂ => .pure ?_)
    · exact discard_goes (block_goes types consequence (hs₁.later hb))
    · exact discard_goes (block_goes types alternative (hs₁.later hb))
    · exact does_lead hs (h₁.trans h₂)
  | .whileLoop _ test body, s, known, hs => by
    rw [stmt]
    refine .bind ((whileLoop_goes flow known hs.ready (fun b hb => .bind ?_) fun b hb => ?_).mono
      fun _ s₂ h₂ => .pure ?_)
    · refine (expr_goes types test (hs.later hb)).mono fun r s₁ ⟨known₁, h₁, hr⟩ => ?_
      exact require_goes fun o ho => ⟨known₁, h₁, hr o ho⟩
    · exact discard_goes (block_goes types body (hs.later hb))
    · exact does_lead hs h₂
  | .breakLoop node, s, known, hs => by
    rw [stmt]
    exact .bind (jump_goes hs.ready fun targets rest hl =>
      .pure (does_jump hs hl (.inr rfl)))
  | .continueLoop node, s, known, hs => by
    rw [stmt]
    exact .bind (jump_goes hs.ready fun targets rest hl =>
      .pure (does_jump hs hl (.inl rfl)))
  | .expr _ value, s, known, hs => by
    rw [stmt]
    exact (expr_goes types value hs).mono fun r s' ⟨known', h, hr⟩ =>
      ⟨known', h.proceeds, hs.leads h, hr⟩

theorem stmts_goes (types : Annotations) : (list : List Stmt) → ∀ (last : Option Operand)
    {s : State} {known : List Fact}, Sited s known → (∀ o ∈ last, o.Known known) →
    Goes (stmts types last list) s (Does s known)
  | [], last, s, known, hs, hl => by
    rw [stmts]
    exact .pure ⟨known, Leads.refl.proceeds, hs, hl⟩
  | t :: rest, last, s, known, hs, hl => by
    rw [stmts]
    refine .bind ((stmt_goes types t hs).mono fun r s₁ ⟨known₁, h₁, hs₁, hr⟩ => ?_)
    refine (stmts_goes types rest r hs₁ hr).mono fun r' s₂ ⟨known₂, h₂, hs₂, hr'⟩ => ?_
    exact ⟨known₂, h₁.trans h₂, hs₂, hr'⟩

end

end Script

theorem sited_initial : Sited .initial [] := ⟨Builder.initial_ready, nofun⟩

/-- The code of a program is code that nothing has been read in too early, and a return. -/
theorem Script.program_goes (types : Annotations) (statements : List Stmt) :
    Goes (program types statements) .initial fun _ s' => ∃ b known,
      Develops flow .initial [] b known ∧ b.Ready ∧
      s'.builder = b.terminate (.ret (.constant (.int 0))) := by
  rw [program]
  refine .bind ((stmts_goes types statements none sited_initial nofun).mono ?_)
  rintro _ s ⟨known, h, hs, -⟩
  exact .edit (isTerminated_of_ready hs.ready) ⟨s.builder, known, h.develops, hs.ready, rfl⟩

theorem Script.Goes.lower_eq_ok {p : CheckedProgram} {name : String} {m : Module}
    {post : Unit → State → Prop}
    (h : Goes (program p.annotations p.program.statements) .initial post)
    (hm : p.lower name = .ok m) : ∃ s, post () s ∧
      m = ⟨name, printers, [s.builder.function entryName .int]⟩ := by
  unfold CheckedProgram.lower at hm
  split at hm
  · rename_i s hrun
    rw [← lowering_program, lowering_run_eq_ok] at hrun
    obtain ⟨hok, rfl⟩ := hrun
    cases hm
    exact ⟨_, h.2 () hok, rfl⟩
  · cases hm

end Leveret.Code
