import Leveret.Proofs.Typing.Findings

/-!
# Faults and annotations, step by step

Checking a program from the parser, clean or not, leaves a table of annotations and a list of
faults that bear each other out. A fault about types is about a node of the tree, and the types it
names are the ones in the table. An expression that is missing there has no value or has a fault in
it, and neither a fault nor a missing type goes unreported.

A poisoned expression leaves the name it is the initial value of without a type, and so poisons
uses of the name far away. What carries the proof is that every name in the scopes has the type
that the table gives to its declaration, and that there are faults if it has none.
-/

namespace Leveret

open Checker

def Cause.isMismatch : Cause → Bool
  | binOpMismatch .. | unaryOpMismatch .. | initMismatch .. | assignTypeMismatch ..
  | conditionMismatch .. => true
  | _ => false

/-- The statement declares a name, with the type and the initial value that are given. -/
inductive Stmt.Declares : Stmt → String → (isConst : Bool) → Option Ty → Option Expr → Prop
  | var {node name declared init} :
      Declares (.declareVar node name declared init) name false declared init
  | const {node name declared init} :
      Declares (.declareConst node name declared init) name true declared (some init)

inductive Stmt.Tests : Stmt → (construct : String) → Expr → Prop
  | ifElse {node test consequence alternative} :
      Tests (.ifElse node test consequence alternative) "if" test
  | whileLoop {node test body} : Tests (.whileLoop node test body) "while" test

/-- A fault about types is about a node, and the types that it names are noted for the expressions
in question and do not go together. -/
inductive Diagnostic.Justified (parts : List Part) (table : Annotations) : Diagnostic → Prop
  | unary {node op operand ty} :
      .expr (.unary node op operand) ∈ parts → table.Notes operand.id ty → op.result? ty = none →
      Justified parts table ⟨.unaryOpMismatch op.symbol ty.name, node.span.start⟩
  | binary {node op left right ty ty'} :
      .expr (.binary node op left right) ∈ parts → table.Notes left.id ty →
      table.Notes right.id ty' → op.result? ty ty' = none →
      Justified parts table ⟨.binOpMismatch ty.name op.symbol ty'.name, node.span.start⟩
  | init {t name isConst init expected received} :
      .stmt t ∈ parts → t.Declares name isConst (some expected) (some init) →
      table.Notes init.id received → expected ≠ received →
      Justified parts table ⟨.initMismatch expected.name received.name, init.position⟩
  | assign {node name value t declared init expected received} :
      .stmt (.assign node name value) ∈ parts → table.Notes value.id received →
      .stmt t ∈ parts → t.Declares name false declared init → table.Notes t.id expected →
      expected ≠ received →
      Justified parts table ⟨.assignTypeMismatch name expected.name received.name, value.position⟩
  | condition {t construct test received} :
      .stmt t ∈ parts → t.Tests construct test → table.Notes test.id received →
      received ≠ .bool →
      Justified parts table ⟨.conditionMismatch construct received.name, test.position⟩

def Synthesis.ty? : Synthesis → Option Ty
  | typed ty => some ty
  | noValue | poisoned => none

def Annotations.note (table : Annotations) (id : Nat) : Option Ty → Annotations
  | some ty => table.insert id ty
  | none => table

theorem Annotations.getElem?_note {table : Annotations} {id : Nat} (h : table[id]? = none)
    (ty : Option Ty) : (table.note id ty)[id]? = ty := by
  cases ty with
  | none => exact h
  | some ty => exact Std.TreeMap.getElem?_insert_self

/-- The type of a declared name: the one that is stated, or else that of the initial value. -/
def Stmt.declaredType? (table : Annotations) : Stmt → Option Ty
  | declareVar _ _ declared init => declared.or (init.bind fun e => table[e.id]?)
  | declareConst _ _ declared init => declared.or table[init.id]?
  | _ => none

theorem Stmt.Declares.declaredType? {t : Stmt} {name : String} {isConst : Bool}
    {declared : Option Ty} {init : Option Expr} (h : t.Declares name isConst declared init)
    (table : Annotations) :
    t.declaredType? table = declared.or (init.bind fun e => table[e.id]?) := by
  cases h <;> rfl

/-- The type that the table should have for a node, by what was found out about it. -/
def Finding.type? (table : Annotations) : Finding → Option Ty
  | (.expr _, r) => r.ty?
  | (.stmt t, _) => t.declaredType? table

def Part.isDeclaration : Part → Bool
  | .expr _ => false
  | .stmt t => t.isDeclaration

/-- The table and the faults bear out what was found out about a node. -/
structure Finding.Settled (table : Annotations) (errors : List Diagnostic) (x : Finding) :
    Prop where
  noted : table[x.1.node.id]? = x.type? table
  poisoned : x.2 = .poisoned → errors ≠ []
  untyped : x.1.isDeclaration = true → x.type? table = none → errors ≠ []

theorem Finding.Settled.later {table : Annotations} {errors errors' : List Diagnostic}
    {x : Finding} (h : x.Settled table errors) (he : errors <+: errors') :
    x.Settled table errors' := by
  exact ⟨h.noted, fun hp => he.ne_nil (h.poisoned hp), fun hd hu => he.ne_nil (h.untyped hd hu)⟩

theorem Stmt.mem_findings (t : Stmt) (s : State) :
    (.stmt t, ((Checker.stmt t).run s).1) ∈ t.findings s := by
  cases t with
  | declareVar node name declared init => cases init <;> simp [Stmt.findings]
  | ifElse node test consequence alternative => cases alternative <;> simp [Stmt.findings]
  | _ => simp [Stmt.findings]

namespace Checker

variable {all parts parts' : List Part} {table : Annotations} {s s₁ s' : State}
  {log log' : List Finding}

/-! ## Scopes and faults -/

/-- Every name in the scopes was declared by a node, with the type that the table has for it, and
a type is missing only if there are faults. -/
def Backed (all : List Part) (table : Annotations) (s : State) : Prop :=
  ∀ frame ∈ s.scopes.frames, ∀ entry ∈ frame,
    (∃ t declared init, .stmt t ∈ all ∧ t.Declares entry.1 entry.2.isConst declared init ∧
      table[t.id]? = entry.2.ty) ∧ (entry.2.ty = none → s.errors ≠ [])

theorem Backed.initial : Backed all table .initial := by
  simp [Backed, State.initial, Chain.initial]

theorem Backed.later (h : Backed all table s) (hs : s'.scopes = s.scopes)
    (he : s.errors <+: s'.errors) : Backed all table s' := by
  intro frame hframe entry hentry
  rw [hs] at hframe
  obtain ⟨hd, hm⟩ := h frame hframe entry hentry
  exact ⟨hd, fun hnone => he.ne_nil (hm hnone)⟩

theorem Backed.through {α : Type} {m : Checker α} (h : Backed all table s) (hm : Contained m) :
    Backed all table (m.run s).2 := by
  obtain ⟨-, -, new, he, -⟩ := hm.isLocal s s ⟨rfl, rfl⟩
  exact h.later (hm.restores s) ⟨new, he.symm⟩

theorem Backed.push (h : Backed all table s) :
    Backed all table { s with scopes := s.scopes.push } := by
  intro frame hframe
  cases hframe with
  | head => nofun
  | tail _ hframe => exact h frame hframe

theorem Backed.adds {t : Stmt} {name : String} {isConst : Bool} {declared ty : Option Ty}
    {init : Option Expr} (h : Backed all table s) (ht : .stmt t ∈ all)
    (hd : t.Declares name isConst declared init) (hnoted : table[t.id]? = ty)
    (hmissing : ty = none → s.errors ≠ []) (ha : s.scopes.Adds name ⟨isConst, ty⟩ s'.scopes)
    (he : s.errors <+: s'.errors) : Backed all table s' := by
  obtain ⟨frame, outer, hc, -, hc'⟩ := ha
  have hold : Backed all table { s' with scopes := s.scopes } := h.later rfl he
  intro f hf entry hentry
  rw [hc', List.mem_cons] at hf
  rcases hf with rfl | hf
  · rw [List.mem_cons] at hentry
    rcases hentry with rfl | hentry
    · exact ⟨⟨t, declared, init, ht, hd, hnoted⟩, fun hnone => he.ne_nil (hmissing hnone)⟩
    · exact hold frame (by simp [hc]) entry hentry
  · exact hold f (by simp [hc, hf]) entry hentry

theorem Backed.find? {name : String} {record : Declaration} (h : Backed all table s)
    (hf : s.scopes.find? name = some record) :
    (∃ t declared init, .stmt t ∈ all ∧ t.Declares name record.isConst declared init ∧
      table[t.id]? = record.ty) ∧ (record.ty = none → s.errors ≠ []) := by
  obtain ⟨inner, xs, ys, outer, hc, -⟩ := Chain.find?_eq_some hf
  exact h (xs ++ (name, record) :: ys) (by simp [hc]) (name, record) (by simp)

def Tells (all : List Part) (table : Annotations) (s s' : State) : Prop :=
  ∃ new, s'.errors = s.errors ++ new ∧
    ∀ d ∈ new, d.cause.isMismatch = true → d.Justified all table

theorem Tells.silent (h : s'.errors = s.errors) : Tells all table s s' :=
  ⟨[], by rw [h, List.append_nil], nofun⟩

theorem Tells.one {d : Diagnostic} (h : s'.errors = s.errors ++ [d])
    (hd : d.cause.isMismatch = true → d.Justified all table) : Tells all table s s' := by
  refine ⟨[d], h, fun d' hd' => ?_⟩
  rw [List.mem_singleton.1 hd']
  exact hd

theorem Tells.trans (h : Tells all table s s₁) (h' : Tells all table s₁ s') :
    Tells all table s s' := by
  obtain ⟨new, he, hj⟩ := h
  obtain ⟨new', he', hj'⟩ := h'
  refine ⟨new ++ new', by rw [he', he, List.append_assoc], fun d hd => ?_⟩
  rcases List.mem_append.1 hd with hd | hd
  · exact hj d hd
  · exact hj' d hd

theorem Tells.extends (h : Tells all table s s') : s.errors <+: s'.errors := by
  obtain ⟨new, he, -⟩ := h
  exact ⟨new, he.symm⟩

/-- Between two states the nodes of `log` were checked, and all is accounted for. -/
structure Accounted (all : List Part) (table : Annotations) (log : List Finding) (s s' : State) :
    Prop where
  settled : ∀ x ∈ log, x.Settled table s'.errors
  tells : Tells all table s s'

theorem Accounted.nil (h : Tells all table s s') : Accounted all table [] s s' := ⟨nofun, h⟩

theorem Accounted.append (h : Accounted all table log s s₁) (h' : Accounted all table log' s₁ s') :
    Accounted all table (log ++ log') s s' := by
  refine ⟨fun x hx => ?_, h.tells.trans h'.tells⟩
  rcases List.mem_append.1 hx with hx | hx
  · exact (h.settled x hx).later h'.tells.extends
  · exact h'.settled x hx

theorem Accounted.then (h : Accounted all table log s s₁) (h' : Tells all table s₁ s') :
    Accounted all table log s s' := by
  simpa using h.append (.nil h')

/-! ## Stretches of a check -/

/-- From `s` to `s'` the nodes `parts` of a tree from the parser are checked, and `table` is what
the check of the whole tree ends with. -/
structure Stretch (all : List Part) (table : Annotations) (parts : List Part) (s s' : State) :
    Prop where
  sub : parts ⊆ all
  nodup : (numbers parts).Nodup
  notBare : ∀ x ∈ parts, ¬ x.Bare
  fresh : ∀ id ∈ numbers parts, s.annotations[id]? = none
  final : ∀ id ∈ numbers parts, table[id]? = s'.annotations[id]?
  backed : Backed all table s

theorem Stretch.left (h : Stretch all table (parts ++ parts') s s')
    (hk : Keeps (numbers parts') s₁ s') : Stretch all table parts s s₁ where
  sub := fun x hx => h.sub (List.mem_append_left _ hx)
  nodup := (List.nodup_append.1 (numbers_append .. ▸ h.nodup)).1
  notBare x hx := h.notBare x (List.mem_append_left _ hx)
  fresh id hid := h.fresh id (by simp [hid])
  final id hid := by
    have hn : id ∉ numbers parts' := fun hid' =>
      (List.nodup_append.1 (numbers_append .. ▸ h.nodup)).2.2 id hid id hid' rfl
    rw [h.final id (by simp [hid]), hk.elsewhere id hn]
  backed := h.backed

theorem Stretch.right (h : Stretch all table (parts ++ parts') s s')
    (hk : Keeps (numbers parts) s s₁) (hb : Backed all table s₁) :
    Stretch all table parts' s₁ s' where
  sub := fun x hx => h.sub (List.mem_append_right _ hx)
  nodup := (List.nodup_append.1 (numbers_append .. ▸ h.nodup)).2.1
  notBare x hx := h.notBare x (List.mem_append_right _ hx)
  fresh id hid := by
    have hn : id ∉ numbers parts := fun hid' =>
      (List.nodup_append.1 (numbers_append .. ▸ h.nodup)).2.2 id hid' id hid rfl
    rw [hk.elsewhere id hn, h.fresh id (by simp [hid])]
  final id hid := h.final id (by simp [hid])
  backed := hb

theorem Stretch.upTo (h : Stretch all table parts s s') (hk : Keeps [] s₁ s') :
    Stretch all table parts s s₁ :=
  { h with final := fun id hid => by rw [h.final id hid, hk.elsewhere id List.not_mem_nil] }

theorem Stretch.startAt (h : Stretch all table parts s s') (hk : Keeps [] s s₁)
    (hs : s₁.scopes = s.scopes) : Stretch all table parts s₁ s' :=
  { h with
    fresh := fun id hid => by rw [hk.elsewhere id List.not_mem_nil, h.fresh id hid]
    backed := h.backed.later hs hk.errors }

theorem Stretch.mem {part : Part} (h : Stretch all table [part] s s') : part ∈ all :=
  h.sub (List.mem_singleton.2 rfl)

theorem Stretch.accounted {x : Finding} (h : Stretch all table [x.1] s s')
    (ha : s'.annotations = s.annotations.note x.1.node.id (x.type? table))
    (ht : Tells all table s s') (hp : x.2 = .poisoned → s'.errors ≠ [])
    (hu : x.1.isDeclaration = true → x.type? table = none → s'.errors ≠ []) :
    Accounted all table [x] s s' := by
  refine ⟨fun y hy => ?_, ht⟩
  rw [List.mem_singleton.1 hy]
  have hid : x.1.node.id ∈ numbers [x.1] := List.mem_singleton.2 rfl
  refine ⟨?_, hp, hu⟩
  rw [h.final _ hid, ha, Annotations.getElem?_note (h.fresh _ hid)]

/-! ## Single steps -/

theorem conclude_run (node : Node) (r : Synthesis) (s : State) :
    (conclude node r).run s =
      (r, { s with annotations := s.annotations.note node.id r.ty? }) := by
  cases r <;> rfl

theorem conclude_accounted {e : Expr} {r : Synthesis}
    (h : Stretch all table [.expr e] s ((conclude e.node r).run s).2)
    (hp : r = .poisoned → s.errors ≠ []) :
    Accounted all table [(.expr e, r)] s ((conclude e.node r).run s).2 := by
  rw [conclude_run] at h ⊢
  exact Stretch.accounted (x := (.expr e, r)) h rfl (.silent rfl) hp nofun

/-- An expression is poisoned without a report only if there was one before. -/
theorem poisoned_accounted {e : Expr} (h : Stretch all table [.expr e] s s)
    (hp : s.errors ≠ []) : Accounted all table [(.expr e, .poisoned)] s s :=
  Stretch.accounted (x := (.expr e, .poisoned)) h rfl (.silent rfl) (fun _ => hp) nofun

theorem reported_accounted {e : Expr} {d : Diagnostic} (h : Stretch all table [.expr e] s s')
    (ha : s'.annotations = s.annotations) (he : s'.errors = s.errors ++ [d])
    (hd : d.cause.isMismatch = true → d.Justified all table) :
    Accounted all table [(.expr e, .poisoned)] s s' := by
  have hne : s'.errors ≠ [] := by simp [he]
  exact Stretch.accounted (x := (.expr e, .poisoned)) h ha (.one he hd) (fun _ => hne) nofun

theorem unary_accounted {node : Node} {op : UnaryOp} {operand : Expr} {ty : Option Ty}
    (h : Stretch all table [.expr (.unary node op operand)] s ((unary node op ty).run s).2)
    (hnoted : table[operand.id]? = ty) (hmissing : ty = none → s.errors ≠ []) :
    Accounted all table [(.expr (.unary node op operand), ((unary node op ty).run s).1)] s
      ((unary node op ty).run s).2 := by
  revert h
  unfold unary
  split
  · intro h
    exact poisoned_accounted h (hmissing rfl)
  · split
    · intro h
      rw [conclude_fst]
      exact conclude_accounted h nofun
    · rename_i hresult
      intro h
      exact reported_accounted h rfl rfl fun _ => .unary h.mem hnoted hresult

theorem binary_accounted {node : Node} {op : BinaryOp} {left right : Expr} {ty ty' : Option Ty}
    (h : Stretch all table [.expr (.binary node op left right)] s
      ((binary node op ty ty').run s).2)
    (hnoted : table[left.id]? = ty) (hnoted' : table[right.id]? = ty')
    (hmissing : ty = none ∨ ty' = none → s.errors ≠ []) :
    Accounted all table [(.expr (.binary node op left right), ((binary node op ty ty').run s).1)] s
      ((binary node op ty ty').run s).2 := by
  revert h
  unfold binary
  split
  · split
    · intro h
      rw [conclude_fst]
      exact conclude_accounted h nofun
    · rename_i hresult
      intro h
      exact reported_accounted h rfl rfl fun _ => .binary h.mem hnoted hnoted' hresult
  · rename_i hnone
    intro h
    refine poisoned_accounted h (hmissing ?_)
    cases ty with
    | none => exact .inl rfl
    | some ty =>
      cases ty' with
      | none => exact .inr rfl
      | some ty' => exact absurd rfl (hnone ty ty' rfl)

theorem load_accounted {node : Node} {name : String}
    (h : Stretch all table [.expr (.load node name)] s ((load node name).run s).2) :
    Accounted all table [(.expr (.load node name), ((load node name).run s).1)] s
      ((load node name).run s).2 := by
  revert h
  unfold load
  rw [run_get_bind]
  split
  · intro h
    rw [conclude_fst]
    exact conclude_accounted h nofun
  · rename_i hf
    intro h
    exact poisoned_accounted h ((h.backed.find? hf).2 rfl)
  · intro h
    exact reported_accounted h rfl rfl nofun

theorem Stretch.plain {t : Stmt} {r : Synthesis}
    (h : Stretch all table (parts ++ [.stmt t]) s s') (hk : Keeps (numbers parts) s s')
    (ha : Accounted all table log s s') (ht : t.isDeclaration = false)
    (hr : r = .poisoned → s'.errors ≠ []) :
    Accounted all table (log ++ [(.stmt t, r)]) s s' := by
  refine ha.append ⟨fun x hx => ?_, .silent rfl⟩
  rw [List.mem_singleton.1 hx]
  have hn : t.id ∉ numbers parts := by
    have hnodup := h.nodup
    rw [numbers_append, List.nodup_append] at hnodup
    exact fun hid => hnodup.2.2 t.id hid t.id (List.mem_singleton.2 rfl) rfl
  have hid : t.id ∈ numbers (parts ++ [.stmt t]) := by simp [Part.node, Stmt.id]
  have hnone : table[t.id]? = none := by rw [h.final _ hid, hk.elsewhere _ hn, h.fresh _ hid]
  have htype : t.declaredType? table = none := by
    cases t <;> first | rfl | cases ht
  refine ⟨hnone.trans htype.symm, hr, fun hd => ?_⟩
  exact absurd hd (by simp [Part.isDeclaration, ht])

theorem Stretch.alone {t : Stmt} (h : Stretch all table [.stmt t] s s') (hk : Keeps [] s s')
    (ht : Tells all table s s') (hd : t.isDeclaration = false) :
    Accounted all table [(.stmt t, .noValue)] s s' := by
  have h : Stretch all table ([] ++ [.stmt t]) s s' := h
  exact h.plain hk (.nil ht) hd nofun

theorem loopControl_tells (node : Node) (keyword : String) :
    Tells all table s ((loopControl node keyword).run s).2 := by
  unfold loopControl
  rw [run_get_bind]
  split
  · exact .one rfl nofun
  · exact .silent rfl

/-! ## Expressions whose value is needed -/

theorem value_run (e : Expr) (s : State) :
    (value e).run s = (require e.position ((expr e).run s).1).run ((expr e).run s).2 := rfl

/-- The value of an expression is accounted for, and its type is the one in the table. -/
structure Valued (all : List Part) (table : Annotations) (e : Expr) (s : State) : Prop where
  accounted : Accounted all table (e.findings s) s ((value e).run s).2
  noted : table[e.id]? = ((value e).run s).1
  missing : ((value e).run s).1 = none → ((value e).run s).2.errors ≠ []

theorem Stretch.ofValue {e : Expr} (h : Stretch all table e.parts s ((value e).run s).2) :
    Stretch all table e.parts s ((expr e).run s).2 :=
  h.upTo (require_keeping _ _ _)

theorem Accounted.valued {e : Expr}
    (h : Accounted all table (e.findings s) s ((expr e).run s).2) : Valued all table e s := by
  have hown := h.settled _ (e.mem_findings s)
  have hnoted : table[e.id]? = ((expr e).run s).1.ty? := hown.noted
  have hpoisoned := hown.poisoned
  dsimp only at hpoisoned
  cases hr : ((expr e).run s).1 with
  | typed ty =>
    have hrun : (value e).run s = (some ty, ((expr e).run s).2) := by
      rw [value_run, hr]
      rfl
    rw [hr] at hnoted
    exact ⟨hrun ▸ h, by rw [hrun]; exact hnoted, by rw [hrun]; nofun⟩
  | poisoned =>
    have hrun : (value e).run s = (none, ((expr e).run s).2) := by
      rw [value_run, hr]
      rfl
    rw [hr] at hnoted
    exact ⟨hrun ▸ h, by rw [hrun]; exact hnoted, fun _ => by rw [hrun]; exact hpoisoned hr⟩
  | noValue =>
    have hrun : (value e).run s = (none, ((report .missingValue e.position).run
        ((expr e).run s).2).2) := by
      rw [value_run, hr]
      rfl
    rw [hr] at hnoted
    refine ⟨?_, by rw [hrun]; exact hnoted, fun _ => ?_⟩
    · rw [hrun]
      exact h.then (.one rfl nofun)
    · rw [hrun]
      exact List.append_ne_nil_of_right_ne_nil _ (List.cons_ne_nil _ _)

/-! ## Conditions -/

theorem Stretch.ofTest {construct : String} {e : Expr}
    (h : Stretch all table e.parts s ((test construct e).run s).2) :
    Stretch all table e.parts s ((expr e).run s).2 :=
  Stretch.ofValue (h.upTo (condition_keeping _ _ _ _))

theorem Valued.tested {t : Stmt} {construct : String} {e : Expr} (h : Valued all table e s)
    (ht : .stmt t ∈ all) (htests : t.Tests construct e) :
    Accounted all table (e.findings s) s ((test construct e).run s).2 := by
  refine h.accounted.then ?_
  change Tells all table _ ((condition construct e.position ((value e).run s).1).run
    ((value e).run s).2).2
  have hnoted := h.noted
  unfold condition
  split
  · split
    · rename_i ty hty hne
      exact .one rfl fun _ => .condition ht htests (hnoted.trans hty) hne
    · exact .silent rfl
  · exact .silent rfl

/-! ## Declarations and assignments -/

section Declaration

variable {t : Stmt} {name : String} {isConst : Bool} {declared : Option Ty}

theorem initialType_run {init : Expr} {received : Option Ty} (ht : .stmt t ∈ all)
    (hd : t.Declares name isConst declared (some init)) (hr : table[init.id]? = received)
    (s : State) :
    ((initialType declared init.position received).run s).1 = t.declaredType? table ∧
      Tells all table s ((initialType declared init.position received).run s).2 := by
  have htype : t.declaredType? table = declared.or received := by
    rw [hd.declaredType?, Option.bind_some, hr]
  rw [htype]
  unfold initialType
  split
  · split
    · rename_i hne
      exact ⟨rfl, .one rfl fun _ => .init ht hd hr hne⟩
    · exact ⟨rfl, .silent rfl⟩
  · exact ⟨rfl, .silent rfl⟩
  · exact ⟨rfl, .silent rfl⟩

theorem run_annotate_bind {α : Type} (id : Nat) (ty : Ty) (f : Unit → Checker α) (s : State) :
    (annotate id ty >>= f).run s =
      (f ()).run { s with annotations := s.annotations.insert id ty } := rfl

theorem declare_run (all : List Part) (table : Annotations) (node : Node) (name : String)
    (isConst : Bool) (ty : Option Ty) (s : State) :
    ((declare node name isConst ty).run s).2.annotations = s.annotations.note node.id ty ∧
      Tells all table s ((declare node name isConst ty).run s).2 ∧
      (((declare node name isConst ty).run s).2.scopes = s.scopes ∨
        s.scopes.Adds name ⟨isConst, ty⟩ ((declare node name isConst ty).run s).2.scopes) := by
  unfold declare
  rcases ty with - | ty <;> dsimp only
  on_goal 2 => rw [run_annotate_bind]
  all_goals
    rw [run_get_bind]
    split
    · rename_i hd
      exact ⟨rfl, .silent rfl, .inr (Chain.declare_eq_ok.1 hd)⟩
    · exact ⟨rfl, .one rfl nofun, .inl rfl⟩
    · exact ⟨rfl, .silent rfl, .inl rfl⟩

theorem declare_accounted {init : Option Expr} {ty : Option Ty}
    (h : Stretch all table [.stmt t] s ((declare t.node name isConst ty).run s).2)
    (hd : t.Declares name isConst declared init) (hty : t.declaredType? table = ty)
    (hmissing : ty = none → s.errors ≠ []) :
    Accounted all table [(.stmt t, .noValue)] s ((declare t.node name isConst ty).run s).2 ∧
      Backed all table ((declare t.node name isConst ty).run s).2 := by
  obtain ⟨hann, htells, hscopes⟩ := declare_run all table t.node name isConst ty s
  have hacc : Accounted all table [(.stmt t, .noValue)] s
      ((declare t.node name isConst ty).run s).2 :=
    Stretch.accounted (x := (.stmt t, .noValue)) h (hty ▸ hann) htells nofun
      fun _ hnone => htells.extends.ne_nil (hmissing (hty.symm.trans hnone))
  refine ⟨hacc, ?_⟩
  rcases hscopes with hsame | hadds
  · exact h.backed.later hsame htells.extends
  · have hnoted : table[t.id]? = ty := ((hacc.settled _ (List.mem_singleton.2 rfl)).noted).trans hty
    exact h.backed.adds h.mem hd hnoted hmissing hadds htells.extends

theorem Valued.declares {init : Expr} (hv : Valued all table init s)
    (hd : t.Declares name isConst declared (some init))
    (h : Stretch all table [.stmt t] ((value init).run s).2
      ((initialType declared init.position ((value init).run s).1 >>=
        declare t.node name isConst).run ((value init).run s).2).2) :
    Accounted all table (init.findings s ++ [(.stmt t, .noValue)]) s
        ((initialType declared init.position ((value init).run s).1 >>=
          declare t.node name isConst).run ((value init).run s).2).2 ∧
      Backed all table ((initialType declared init.position ((value init).run s).1 >>=
        declare t.node name isConst).run ((value init).run s).2).2 := by
  rw [run_bind] at h ⊢
  obtain ⟨hty, htells⟩ := initialType_run h.mem hd hv.noted ((value init).run s).2
  have hown := h.startAt (initialType_keeping declared init.position ((value init).run s).1 _)
    ((initialType_contained _ _ _).restores _)
  have hmissing : t.declaredType? table = none → ((value init).run s).2.errors ≠ [] := by
    rw [hd.declaredType?, Option.or_eq_none_iff]
    intro hnone
    exact hv.missing (hv.noted.symm.trans hnone.2)
  obtain ⟨hacc, hb⟩ := declare_accounted hown hd hty.symm fun hnone =>
    htells.extends.ne_nil (hmissing (hty.symm.trans hnone))
  exact ⟨(hv.accounted.then htells).append hacc, hb⟩

end Declaration

theorem assign_tells {node : Node} {name : String} {value : Expr} {received : Option Ty}
    (hm : .stmt (.assign node name value) ∈ all) (hb : Backed all table s)
    (hnoted : table[value.id]? = received) :
    Tells all table s ((assign node name value.position received).run s).2 := by
  unfold assign
  rw [run_get_bind]
  split
  · exact .one rfl nofun
  · exact .one rfl nofun
  · rename_i expected hf
    obtain ⟨⟨t, declared, init, ht, hd, hty⟩, -⟩ := hb.find? hf
    split
    · rename_i expected' received' hpair
      cases hpair
      split
      · rename_i hne
        exact .one rfl fun _ => .assign hm hnoted ht hd hty hne
      · exact .silent rfl
    · exact .silent rfl

end Checker

end Leveret
