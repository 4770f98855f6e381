import Leveret.Proofs.Code.Agreement
import Leveret.Proofs.Code.Dominance
import Leveret.Proofs.Code.Integrity

/-!
# Types in block code

When block code is type-correct: every operand has the type that is stated for it or that its
instruction asks for. The code of every accepted program is.
-/

namespace Leveret

namespace Code

open Lowering

/-! ## Rules -/

def Opcode.ty : Opcode → Ty
  | add | sub | mul | sdiv => .int
  | fadd | fsub | fmul | fdiv => .float
  | and | or => .bool

def Operand.HasType (registers : Nat → Ty → Prop) : Operand → Ty → Prop
  | register number, ty => registers number ty
  | constant value, ty => value.ty = ty

def Instruction.WellTyped (registers : Nat → Ty → Prop) (slots : Array Slot)
    (externs : List Extern) : Instruction → Prop
  | load _ slot ty => slots[slot]?.map (·.ty) = some ty
  | store slot ty value => slots[slot]?.map (·.ty) = some ty ∧ value.HasType registers ty
  | binary _ op ty left right =>
    ty = op.ty ∧ left.HasType registers ty ∧ right.HasType registers ty
  | icmp _ _ ty left right =>
    ty ≠ .float ∧ left.HasType registers ty ∧ right.HasType registers ty
  | fcmp _ _ left right => left.HasType registers .float ∧ right.HasType registers .float
  | neg _ ty operand => ty ≠ .bool ∧ operand.HasType registers ty
  | call callee args =>
    (∃ e, externs.find? (·.name = callee) = some e ∧ args.map Prod.fst = e.params) ∧
      ∀ arg ∈ args, arg.2.HasType registers arg.1

def Terminator.WellTyped (registers : Nat → Ty → Prop) (returns : Ty) : Terminator → Prop
  | br _ => True
  | condBr condition _ _ => condition.HasType registers .bool
  | ret value => value.HasType registers returns

/-- Some instruction writes a value of the type to the register. -/
def Writes (blocks : Array BasicBlock) (n : Nat) (ty : Ty) : Prop :=
  ∃ k, ∃ i ∈ codeAt blocks k, i.result? = some (n, ty)

def RegisterType (blocks : Array BasicBlock) (n : Nat) (ty : Ty) : Prop :=
  Writes blocks n ty ∧ ∀ ty', Writes blocks n ty' → ty' = ty

structure Function.WellTyped (externs : List Extern) (f : Function) : Prop where
  instructions : ∀ k, ∀ i ∈ codeAt f.blocks k,
    i.WellTyped (RegisterType f.blocks) f.slots externs
  ends : ∀ k t, endAt f.blocks k = some t → t.WellTyped (RegisterType f.blocks) f.returns

/-! ## The law of types -/

/-- The registers that are known, with their types. -/
def Typed (known : List Fact) (o : Operand) (ty : Ty) : Prop :=
  o.HasType (fun n ty => .register n ty ∈ known) ty

section Mono

variable {registers registers' : Nat → Ty → Prop} {slots slots' : Array Slot}
  {externs : List Extern} {known known' : List Fact} {o : Operand} {ty : Ty}

theorem Operand.HasType.mono (h : o.HasType registers ty)
    (hr : ∀ n ty, registers n ty → registers' n ty) : o.HasType registers' ty := by
  cases o with
  | register n => exact hr n ty h
  | constant v => exact h

theorem Typed.mono (h : Typed known o ty) (hk : known ⊆ known') : Typed known' o ty :=
  Operand.HasType.mono h fun _ _ hn => hk hn

theorem slotType_mono {slot : Nat} (hs : slots.toList <+: slots'.toList)
    (h : slots[slot]?.map (·.ty) = some ty) : slots'[slot]?.map (·.ty) = some ty := by
  obtain ⟨entry, hentry, hty⟩ := Option.map_eq_some_iff.1 h
  obtain ⟨hlt, -⟩ := Array.getElem?_eq_some_iff.1 hentry
  obtain ⟨rest, hrest⟩ := hs
  rw [← Array.getElem?_toList, ← hrest, List.getElem?_append_left hlt, Array.getElem?_toList]
  exact h

theorem Instruction.WellTyped.mono {i : Instruction} (h : i.WellTyped registers slots externs)
    (hr : ∀ n ty, registers n ty → registers' n ty) (hs : slots.toList <+: slots'.toList) :
    i.WellTyped registers' slots' externs := by
  cases i with
  | load dest slot ty => exact slotType_mono hs h
  | store slot ty value => exact ⟨slotType_mono hs h.1, h.2.mono hr⟩
  | binary | icmp => exact ⟨h.1, h.2.1.mono hr, h.2.2.mono hr⟩
  | fcmp => exact ⟨h.1.mono hr, h.2.mono hr⟩
  | neg => exact ⟨h.1, h.2.mono hr⟩
  | call => exact ⟨h.1, fun arg harg => (h.2 arg harg).mono hr⟩

end Mono

/-- Instructions are type-correct, and branches go by truth values. -/
def typing : Law where
  instruction slots known i := i.WellTyped (fun n ty => .register n ty ∈ known) slots printers
  test known o := Typed known o .bool
  instruction_mono hs hk h := h.mono (fun _ _ hn => hk hn) hs
  test_mono hk h := h.mono hk

/-! ## Operators -/

theorem unary_result?_eq_some {op : UnaryOp} {ty ty' : Ty} (h : op.result? ty = some ty') :
    ty' = ty ∧ ty ≠ .bool := by
  cases ty <;> cases h <;> exact ⟨rfl, nofun⟩

theorem binaryInstruction?_wellTyped {op : BinaryOp} {ty ty' ty'' : Ty} {dest : Nat}
    {x y : Operand} {i : Instruction} {registers : Nat → Ty → Prop} {slots : Array Slot}
    {externs : List Extern} (hop : op.result? ty ty' = some ty'')
    (hi : Lowering.binaryInstruction? op ty dest x y = some i) (hx : x.HasType registers ty)
    (hy : y.HasType registers ty') :
    i.gives = [.register dest ty''] ∧ i.WellTyped registers slots externs := by
  cases ty <;> cases ty' <;> cases op <;> cases hop <;> cases hi
  all_goals first
    | exact ⟨rfl, rfl, hx, hy⟩
    | exact ⟨rfl, nofun, hx, hy⟩
    | exact ⟨rfl, hx, hy⟩

theorem printers_find? (ty : Ty) :
    printers.find? (·.name = printer ty) = some ⟨printer ty, [ty]⟩ := by
  cases ty <;> decide

/-! ## Trees -/

section Parts

variable {Γ Γ' : Chain Declaration} {s s' : State} {known known' : List Fact}
  {r : Option Operand} {ty : Option Ty}

/-- Expressions and blocks lead to a place where their operand has their type. -/
def Computes (ty : Option Ty) (s : State) (known : List Fact) (r : Option Operand) (s' : State) :
    Prop :=
  ∃ known', Leads typing s known s' known' ∧ ∀ o ∈ r, ∃ ty' ∈ ty, Typed known' o ty'

def Performs (Γ' : Chain Declaration) (ty : Option Ty) (s : State) (known : List Fact)
    (r : Option Operand) (s' : State) : Prop :=
  ∃ known', Proceeds typing s known s' known' ∧ Fits Γ' s' ∧
    ∀ o ∈ r, ∃ ty' ∈ ty, Typed known' o ty'

theorem Fits.leads {law : Law} (h : Fits Γ s) (hl : Leads law s known s' known') : Fits Γ s' :=
  h.of_code (hl.develops.grown h.ready) hl.scopes

theorem Fits.later {b : Builder} (h : Fits Γ s) (hb : Script.Later s b) :
    Fits Γ { s with builder := b } := h.within hb.1 hb.2

theorem Fits.slotType {name : String} {isConst : Bool} {ty : Ty} {slot : Nat} (h : Fits Γ s)
    (hf : Γ.find? name = some ⟨isConst, some ty⟩) (hslot : s.scopes.find? name = some slot) :
    s.builder.slotType? slot = some ty := by
  obtain ⟨slot', hslot', -, hty⟩ := h.scopes.resolve hf
  cases hslot.symm.trans hslot'
  exact hty

theorem computes_compute {s' : State} {known' : List Fact} {i : Instruction} {ty : Ty}
    (h : Leads typing s known s' known')
    (hi : i.gives = [.register s'.builder.nextRegister ty])
    (hl : typing.instruction s'.builder.slots known' i) :
    Computes (some ty) s known (some (.register s'.builder.nextRegister))
      { s' with builder := s'.builder.freshRegister.2.emit i } := by
  refine ⟨_, h.trans (.compute hi hl), ?_⟩
  rintro _ ⟨⟩
  exact ⟨ty, rfl, List.mem_cons_self⟩

theorem performs_lead (hs : Fits Γ s) (h : Leads typing s known s' known') :
    Performs Γ none s known none s' :=
  ⟨known', h.proceeds, hs.leads h, fun _ ho => by cases ho⟩

theorem performs_declare {name : String} {isConst : Bool} {ty : Ty} {o : Operand}
    {scopes : Chain Nat} (hs : Fits Γ s) (h : Leads typing s known s' known')
    (hΓ : Γ.Adds name ⟨isConst, some ty⟩ Γ')
    (ha : s'.scopes.Adds name s'.builder.slots.size scopes) (ho : Typed known' o ty) :
    Performs Γ' none s known none
      ⟨(s'.builder.allocateSlot name ty).2.emit (.store s'.builder.slots.size ty o), scopes⟩ := by
  have hs' := hs.leads h
  refine ⟨_, h.proceeds.trans (.declare ha ⟨?_, ho⟩), ?_, fun _ ho => by cases ho⟩
  · simp
  · have hg : (s'.builder.allocateSlot name ty).2.Grown ((s'.builder.allocateSlot name ty).2.emit
        (.store s'.builder.slots.size ty o)) := Builder.emit_grown hs'.ready
    obtain ⟨scopes', ha', hfits⟩ := hs'.adds hg hΓ
    cases (Chain.declare_eq_ok.2 ha).symm.trans (Chain.declare_eq_ok.2 ha')
    exact hfits

theorem performs_jump {targets : LoopTargets} {rest : List LoopTargets}
    {target : LoopTargets → Nat} (hs : Fits Γ s) (hl : s.builder.loops = targets :: rest)
    (ht : target targets = targets.header ∨ target targets = targets.exit) :
    Performs Γ none s known none { s with builder := s.builder.jump (.br (target targets)) } :=
  ⟨known, .jump hl ht, hs.grown (Builder.jump_grown hs.ready), fun _ ho => by cases ho⟩

end Parts

namespace Script

theorem Goes.computed {α : Type} {x : Script (Option Operand)} {position : Position}
    {f : Operand → Script α} {ty : Ty} {s : State} {known : List Fact} {post : α → State → Prop}
    (hx : Goes x s (Computes (some ty) s known))
    (hf : ∀ o s' known', Leads typing s known s' known' → Typed known' o ty →
      Goes (f o) s' post) :
    Goes (x >>= fun r => require position r >>= f) s post := by
  refine .bind (hx.mono ?_)
  rintro r s' ⟨known', h, hr⟩
  refine .bind (require_goes fun o ho => ?_)
  obtain ⟨_, ⟨⟩, htyped⟩ := hr o ho
  exact hf o s' known' h htyped

mutual

theorem expr_typed {types Γ e ty} : Expr.HasType (Annotations.Notes types) Γ e ty →
    ∀ s known, Fits Γ s → Goes (expr types e) s (Computes ty s known)
  | .literal _, s, known, hs => by
    rw [expr]
    refine .pure ⟨known, .refl, ?_⟩
    rintro _ ⟨⟩
    exact ⟨_, rfl, rfl⟩
  | .unary h hop hn, s, known, hs => by
    rw [expr]
    refine .bind (typeOf_goes fun ty hty => ?_)
    obtain ⟨rfl, hbool⟩ := unary_result?_eq_some hop
    cases hty.symm.trans hn
    refine .computed (expr_typed h s known hs) fun o s₁ known₁ h₁ htyped => .bind ?_
    refine unary_goes (hs.leads h₁).ready (fun _ => .pure ⟨known₁, h₁, ?_⟩) fun _ => .pure ?_
    · rintro _ ⟨⟩
      exact ⟨_, rfl, htyped⟩
    · exact computes_compute h₁ rfl ⟨hbool, htyped⟩
  | .binary h h' hop _, s, known, hs => by
    rw [expr]
    refine .bind (typeOf_goes fun ty hty => ?_)
    cases hty.symm.trans h.noted
    refine .computed (expr_typed h s known hs) fun x s₁ known₁ h₁ hx => ?_
    have hs₁ := hs.leads h₁
    refine .computed (expr_typed h' s₁ known₁ hs₁) fun y s₂ known₂ h₂ hy => .bind ?_
    refine binary_goes (hs₁.leads h₂).ready fun i hi => .pure ?_
    obtain ⟨hgives, htyped⟩ := binaryInstruction?_wellTyped hop hi (hx.mono h₂.develops.subset) hy
    exact computes_compute (h₁.trans h₂) hgives htyped
  | .load hf _, s, known, hs => by
    rw [expr]
    refine .bind (load_goes hs.ready fun slot hslot => .pure ?_)
    have hty := hs.slotType hf hslot
    rw [hty]
    exact computes_compute .refl rfl hty
  | .compound h _, s, known, hs => by
    rw [expr]
    exact block_typed h s known hs

theorem block_typed {types inLoop Γ b ty} :
    Block.HasType (Annotations.Notes types) inLoop Γ b ty →
    ∀ s known, Fits Γ s → Goes (block types b) s (Computes ty s known)
  | .intro h, s, known, hs => by
    rw [block]
    refine inFrame_goes ((stmts_typed h _ known none hs.push nofun).mono ?_)
    rintro r s' ⟨known', h', -, hr⟩
    exact ⟨known', h'.inFrame, hr⟩

theorem stmt_typed {types inLoop Γ Γ' t ty} :
    Stmt.WellTyped (Annotations.Notes types) inLoop Γ t Γ' ty →
    ∀ s known, Fits Γ s → Goes (stmt types t) s (Performs Γ' ty s known)
  | .declareZero hn ha, s, known, hs => by
    rw [stmt]
    refine .bind (typeOf_goes fun ty hty => ?_)
    cases hty.symm.trans hn
    refine .bind (declare_goes hs.ready fun scopes hadds => .pure ?_)
    exact performs_declare hs .refl ha hadds (Value.ty_zero _)
  | .declareVar h _ hn ha, s, known, hs | .declareConst h _ hn ha, s, known, hs => by
    rw [stmt]
    refine .bind (typeOf_goes fun ty hty => ?_)
    cases hty.symm.trans hn
    refine .computed (expr_typed h s known hs) fun o s₁ known₁ h₁ htyped => ?_
    refine .bind (declare_goes (hs.leads h₁).ready fun scopes hadds => .pure ?_)
    exact performs_declare hs h₁ ha hadds htyped
  | .assign h hf, s, known, hs => by
    rw [stmt]
    refine .computed (expr_typed h s known hs) fun o s₁ known₁ h₁ htyped => ?_
    have hs₁ := hs.leads h₁
    refine .bind (assign_goes hs₁.ready fun slot hslot => .pure ?_)
    have hty := hs₁.slotType hf hslot
    rw [hty]
    exact performs_lead hs (h₁.trans (.perform (by simp [Instruction.gives]) ⟨hty, htyped⟩))
  | .print h, s, known, hs => by
    rw [stmt]
    refine .bind (typeOf_goes fun ty hty => ?_)
    cases hty.symm.trans h.noted
    refine .computed (expr_typed h s known hs) fun o s₁ known₁ h₁ htyped => ?_
    refine .bind (.edit (isTerminated_of_ready (hs.leads h₁).ready) (.pure ?_))
    refine performs_lead hs (h₁.trans (.perform (by simp [Instruction.gives]) ⟨?_, ?_⟩))
    · exact ⟨_, printers_find? _, rfl⟩
    · exact List.forall_mem_singleton.2 htyped
  | .ifOnly h hb, s, known, hs => by
    rw [stmt]
    refine .computed (expr_typed h s known hs) fun o s₁ known₁ h₁ htyped => .bind ?_
    have hs₁ := hs.leads h₁
    refine (ifElse_goes typing known₁ hs₁.ready htyped (fun b hl => ?_) fun b hl => ?_).mono
      fun _ s₂ h₂ => .pure (performs_lead hs (h₁.trans h₂))
    · exact discard_goes (block_typed hb _ known₁ (hs₁.later hl))
    · exact .pure ⟨known₁, .refl⟩
  | .ifElse h hb hb', s, known, hs => by
    rw [stmt]
    refine .computed (expr_typed h s known hs) fun o s₁ known₁ h₁ htyped => .bind ?_
    have hs₁ := hs.leads h₁
    refine (ifElse_goes typing known₁ hs₁.ready htyped (fun b hl => ?_) fun b hl => ?_).mono
      fun _ s₂ h₂ => .pure (performs_lead hs (h₁.trans h₂))
    · exact discard_goes (block_typed hb _ known₁ (hs₁.later hl))
    · exact discard_goes (block_typed hb' _ known₁ (hs₁.later hl))
  | .whileLoop h hb, s, known, hs => by
    rw [stmt]
    refine .bind ((whileLoop_goes typing known hs.ready (fun b hl => .bind ?_)
      fun b hl => ?_).mono fun _ s₂ h₂ => .pure (performs_lead hs h₂))
    · refine (expr_typed h _ known (hs.later hl)).mono fun r s₁ ⟨known₁, h₁, hr⟩ => ?_
      refine require_goes fun o ho => ?_
      obtain ⟨_, ⟨⟩, htyped⟩ := hr o ho
      exact ⟨known₁, h₁, htyped⟩
    · exact discard_goes (block_typed hb _ known (hs.later hl))
  | .breakLoop, s, known, hs => by
    rw [stmt]
    exact .bind (jump_goes hs.ready fun targets rest hl =>
      .pure (performs_jump hs hl (.inr rfl)))
  | .continueLoop, s, known, hs => by
    rw [stmt]
    exact .bind (jump_goes hs.ready fun targets rest hl =>
      .pure (performs_jump hs hl (.inl rfl)))
  | .expr h, s, known, hs => by
    rw [stmt]
    exact (expr_typed h s known hs).mono fun r s' ⟨known', h', hr⟩ =>
      ⟨known', h'.proceeds, hs.leads h', hr⟩

theorem stmts_typed {types inLoop Γ Γ' last list ty} :
    Sequence (Annotations.Notes types) inLoop Γ last list Γ' ty →
    ∀ s known (r : Option Operand), Fits Γ s → (∀ o ∈ r, ∃ ty' ∈ last, Typed known o ty') →
      Goes (stmts types r list) s (Performs Γ' ty s known)
  | .nil, s, known, r, hs, hr => by
    rw [stmts]
    exact .pure ⟨known, Leads.refl.proceeds, hs, hr⟩
  | .cons h hrest, s, known, r, hs, _ => by
    rw [stmts]
    refine .bind ((stmt_typed h s known hs).mono fun r₁ s₁ ⟨known₁, h₁, hs₁, hr₁⟩ => ?_)
    refine (stmts_typed hrest s₁ known₁ r₁ hs₁ hr₁).mono
      fun r₂ s₂ ⟨known₂, h₂, hs₂, hr₂⟩ => ?_
    exact ⟨known₂, h₁.trans h₂, hs₂, hr₂⟩

end

theorem program_typed {p : CheckedProgram} (hp : p.WellTyped) :
    Goes (program p.annotations p.program.statements) .initial fun _ s' => ∃ b known,
      Develops typing .initial [] b known ∧ b.Ready ∧
      s'.builder = b.terminate (.ret (.constant (.int 0))) := by
  obtain ⟨Γ, r, h⟩ := hp
  rw [program]
  refine .bind ((stmts_typed h .initial [] none fits_initial nofun).mono ?_)
  rintro _ s ⟨known, h, hs, -⟩
  exact .edit (isTerminated_of_ready hs.ready) ⟨s.builder, known, h.develops, hs.ready, rfl⟩

end Script

/-! ## From certificates to types -/

section Registers

variable {b : Builder} {start : Nat → List Fact} {law : Law}

theorem Builder.Numbered.registerType (h : b.Numbered) {n : Nat} {ty : Ty}
    (hw : Writes b.blocks n ty) : RegisterType b.blocks n ty := by
  refine ⟨hw, fun ty' hw' => ?_⟩
  obtain ⟨k, i, hi, hres⟩ := hw
  obtain ⟨k', i', hi', hres'⟩ := hw'
  obtain ⟨j, hj⟩ := List.mem_iff_getElem?.1 hi
  obtain ⟨j', hj'⟩ := List.mem_iff_getElem?.1 hi'
  obtain ⟨rfl, rfl⟩ := h.unique n k j k' j' ⟨i, ty, hj, hres⟩ ⟨i', ty', hj', hres'⟩
  cases hj.symm.trans hj'
  cases hres.symm.trans hres'
  rfl

/-- What is known of a register at a place is what its definition says. -/
theorem Certified.registerType (h : Certified law start b) (hn : b.Numbered) {k n : Nat} {ty : Ty}
    {code : List Instruction} (hk : k < b.blocks.size) (hcode : code ⊆ codeAt b.blocks k)
    (hf : .register n ty ∈ knownAfter (start k) code) : RegisterType b.blocks n ty := by
  refine hn.registerType ?_
  rcases List.mem_append.1 hf with hstart | hgiven
  · obtain ⟨k', -, i, hi, hres⟩ := h.origins k hk n ty hstart
    exact ⟨k', i, hi, hres⟩
  · obtain ⟨i, hi, hgives⟩ := List.mem_flatMap.1 hgiven
    exact ⟨k, i, hcode hi, register_mem_gives.1 hgives⟩

end Registers

theorem Develops.wellTyped {b : Builder} {known : List Fact} {v : Value}
    (h : Develops typing .initial [] b known) (hb : b.Ready) (hv : v.ty = .int) :
    ((b.terminate (.ret (.constant v))).function entryName .int).WellTyped printers := by
  obtain ⟨start, -, hs⟩ := h.standing Builder.initial_ready standing_initial
  have hc := hs.certified
  have hn := h.numbered Builder.initial_ready Builder.numbered_initial
  have hcode (k : Nat) : codeAt (b.terminate (.ret (.constant v))).blocks k = codeAt b.blocks k :=
    Builder.terminate_codeAt
  have hregisters : RegisterType (b.terminate (.ret (.constant v))).blocks =
      RegisterType b.blocks := by
    unfold RegisterType Writes
    simp only [hcode]
  refine ⟨fun k i hi => ?_, fun k t ht => ?_⟩
  · change i ∈ codeAt (b.terminate (.ret (.constant v))).blocks k at hi
    change i.WellTyped (RegisterType (b.terminate (.ret (.constant v))).blocks) b.slots printers
    rw [hcode] at hi
    rw [hregisters]
    obtain ⟨j, hj⟩ := List.mem_iff_getElem?.1 hi
    exact (hc.instructions k j i hj).mono
      (fun n ty hf => hc.registerType hn (lt_of_codeAt hj) (List.take_subset _ _) hf)
      (List.prefix_refl _)
  · change endAt (b.terminate (.ret (.constant v))).blocks k = some t at ht
    change t.WellTyped (RegisterType (b.terminate (.ret (.constant v))).blocks) .int
    rw [hregisters]
    rw [Builder.terminate_endAt hb] at ht
    split at ht
    · cases ht
      exact hv
    cases t with
    | br target => trivial
    | condBr o onTrue onFalse =>
      have htest : Typed _ o .bool := hc.tests k _ ht o List.mem_cons_self
      exact Operand.HasType.mono htest fun n ty hf =>
        hc.registerType hn (lt_of_endAt ht) (List.Subset.refl _) hf
    | ret value =>
      -- the only return is the one at the end
      have hcharted := (h.charted Builder.initial_ready charted_initial).1
      exact absurd rfl ((hcharted.ends k _ ht).1 value)

end Code

open Code

/-- Lowering succeeds on every accepted program, and the code is type-correct. -/
theorem checkSource_lower_wellTyped {source file : String} {p : CheckedProgram}
    (h : checkSource source file = .ok p) (name : String) :
    ∃ m f, p.lower name = .ok m ∧ m.functions = [f] ∧ f.name = entryName ∧ f.returns = .int ∧
      f.WellTyped m.externs := by
  have hp := checkSource_wellTyped h
  obtain ⟨m, -, hm, -⟩ := program_code hp name
  obtain ⟨s, ⟨b, known, hd, hb, hs⟩, rfl⟩ := (Script.program_typed hp).lower_eq_ok hm
  refine ⟨_, _, hm, rfl, rfl, rfl, ?_⟩
  rw [hs]
  exact hd.wellTyped hb rfl

theorem exists_checkSource_lower_wellTyped : ∃ p m f,
    checkSource "var x = 1.5; while x < 9.0 { x = x + x; } print x == 12.0 || false;" "double" =
      .ok p ∧
    p.lower "double" = .ok m ∧ m.functions = [f] ∧ f.returns = .int ∧ f.WellTyped m.externs := by
  have hsome : (checkSource "var x = 1.5; while x < 9.0 { x = x + x; } print x == 12.0 || false;"
      "double").toOption.isSome = true := by decide +kernel
  obtain ⟨p, hp⟩ := Option.isSome_iff_exists.1 hsome
  have hp := toOption_eq_some.1 hp
  obtain ⟨m, f, hm, hf, -, hreturns, htyped⟩ := checkSource_lower_wellTyped hp "double"
  exact ⟨p, m, f, hp, hm, hf, hreturns, htyped⟩

end Leveret
