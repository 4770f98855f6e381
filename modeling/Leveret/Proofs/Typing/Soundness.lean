import Leveret.Proofs.Typing.Keeping

/-!
# The checker follows the rules

A program in which the checker finds no fault is well typed, and the annotations are right about
every node of it. Faults are never taken back, so a check without faults has none at any time; and
a node's annotation stays, because no other node has its number.
-/

namespace Leveret

def Synthesis.of : Option Ty → Synthesis
  | some ty => .typed ty
  | none => .noValue

namespace Checker

/-! ## Checks without faults -/

/-- From `s` to `s'` the nodes `parts` of a tree from the parser are checked without a fault, and
`table` holds what they are annotated with. -/
structure Clean (parts : List Part) (table : Annotations) (s s' : State) : Prop where
  quiet : s'.errors.length ≤ s.errors.length
  nodup : (numbers parts).Nodup
  notBare : ∀ x ∈ parts, ¬ x.Bare
  agrees : ∀ id ∈ numbers parts, table[id]? = s'.annotations[id]?
  typed : s.scopes.Typed

section Clean

variable {parts parts' : List Part} {table : Annotations} {s s₁ s' : State}

theorem Clean.left (h : Clean (parts ++ parts') table s s')
    (hk' : Keeps (numbers parts') s₁ s') : Clean parts table s s₁ where
  quiet := Nat.le_trans hk'.faults h.quiet
  nodup := (List.nodup_append.1 (numbers_append .. ▸ h.nodup)).1
  notBare x hx := h.notBare x (List.mem_append_left _ hx)
  agrees id hid := by
    have hn : id ∉ numbers parts' := fun hid' =>
      (List.nodup_append.1 (numbers_append .. ▸ h.nodup)).2.2 id hid id hid' rfl
    rw [h.agrees id (by simp [hid]), hk'.elsewhere id hn]
  typed := h.typed

theorem Clean.noted {id : Nat} {ty : Ty} {before : Annotations} (h : Clean parts table s s')
    (hid : id ∈ numbers parts) (ha : s'.annotations = before.insert id ty) :
    table.Notes id ty := by
  rw [Annotations.Notes, h.agrees id hid, ha, Std.TreeMap.getElem?_insert_self]

theorem Clean.right (h : Clean (parts ++ parts') table s s') (hk : Keeps (numbers parts) s s₁)
    (ht : s₁.scopes.Typed) : Clean parts' table s₁ s' where
  quiet := Nat.le_trans h.quiet hk.faults
  nodup := (List.nodup_append.1 (numbers_append .. ▸ h.nodup)).2.1
  notBare x hx := h.notBare x (List.mem_append_right _ hx)
  agrees id hid := h.agrees id (by simp [hid])
  typed := ht

theorem Clean.upTo (h : Clean parts table s s') (hk : Keeps [] s₁ s') :
    Clean parts table s s₁ :=
  { h with
    quiet := Nat.le_trans hk.faults h.quiet
    agrees := fun id hid => by rw [h.agrees id hid, hk.elsewhere id List.not_mem_nil] }

end Clean

section Steps

variable {s s' : State} {a : Synthesis} {node : Node}

theorem require_quiet {position : Position} {r ty : Option Ty}
    (h : (require position (.of r)).run s = (ty, s')) (hq : s'.errors.length ≤ s.errors.length) :
    ∃ t, r = some t ∧ ty = some t ∧ s' = s := by
  cases r with
  | some t =>
    cases h
    exact ⟨t, rfl, rfl, rfl⟩
  | none =>
    cases h
    exact absurd hq (by simp)

theorem unary_quiet {op : UnaryOp} {ty : Ty} (h : (unary node op (some ty)).run s = (a, s'))
    (hq : s'.errors.length ≤ s.errors.length) :
    ∃ ty', op.result? ty = some ty' ∧ a = .typed ty' ∧
      s' = { s with annotations := s.annotations.insert node.id ty' } := by
  rw [unary] at h
  split at h
  · rename_i ty' hty
    cases h
    exact ⟨ty', hty, rfl, rfl⟩
  · cases h
    exact absurd hq (by simp)

theorem binary_quiet {op : BinaryOp} {left right : Ty}
    (h : (binary node op (some left) (some right)).run s = (a, s'))
    (hq : s'.errors.length ≤ s.errors.length) :
    ∃ ty, op.result? left right = some ty ∧ a = .typed ty ∧
      s' = { s with annotations := s.annotations.insert node.id ty } := by
  rw [binary] at h
  split at h
  · rename_i ty hty
    cases h
    exact ⟨ty, hty, rfl, rfl⟩
  · cases h
    exact absurd hq (by simp)

theorem load_quiet {name : String} (h : (load node name).run s = (a, s'))
    (hq : s'.errors.length ≤ s.errors.length) (ht : s.scopes.Typed) :
    ∃ isConst ty, s.scopes.find? name = some ⟨isConst, some ty⟩ ∧ a = .typed ty ∧
      s' = { s with annotations := s.annotations.insert node.id ty } := by
  obtain ⟨_, _, hg, h⟩ := run_bind_eq h
  cases hg
  split at h
  · rename_i isConst ty hf
    cases h
    exact ⟨isConst, ty, hf, rfl, rfl⟩
  · rename_i isConst hf
    have := ht.types _ (Chain.mem_records_of_find? hf)
    simp at this
  · cases h
    exact absurd hq (by simp)

theorem initialType_quiet {declared r : Option Ty} {position : Position} {ty : Ty}
    (h : (initialType declared position (some ty)).run s = (r, s'))
    (hq : s'.errors.length ≤ s.errors.length) :
    r = some ty ∧ (∀ ty' ∈ declared, ty' = ty) ∧ s' = s := by
  cases declared with
  | none =>
    cases h
    exact ⟨rfl, nofun, rfl⟩
  | some ty' =>
    rw [initialType] at h
    split at h
    · cases h
      exact absurd hq (by simp)
    · rename_i hty
      obtain rfl : ty' = ty := not_not.1 hty
      cases h
      exact ⟨rfl, by simp, rfl⟩

theorem declare_quiet {name : String} {isConst : Bool} {ty : Ty} {u : Unit}
    (h : (declare node name isConst (some ty)).run s = (u, s'))
    (hq : s'.errors.length ≤ s.errors.length) (hn : s.scopes.frames ≠ []) :
    s.scopes.Adds name ⟨isConst, some ty⟩ s'.scopes ∧
      s'.annotations = s.annotations.insert node.id ty := by
  obtain ⟨_, s₁, h₁, h⟩ := run_bind_eq h
  cases h₁
  obtain ⟨_, _, hg, h⟩ := run_bind_eq h
  cases hg
  split at h
  · rename_i scopes hd
    cases h
    exact ⟨Chain.declare_eq_ok.1 hd, rfl⟩
  · cases h
    exact absurd hq (by simp)
  · rename_i hd
    cases hf : s.scopes.frames with
    | nil => exact absurd hf hn
    | cons frame outer =>
      rw [Chain.declare_eq, hf] at hd
      dsimp only at hd
      split at hd <;> cases hd

theorem assign_quiet {name : String} {position : Position} {ty : Ty} {u : Unit}
    (h : (assign node name position (some ty)).run s = (u, s'))
    (hq : s'.errors.length ≤ s.errors.length) (ht : s.scopes.Typed) :
    s.scopes.find? name = some ⟨false, some ty⟩ ∧ s' = s := by
  obtain ⟨_, _, hg, h⟩ := run_bind_eq h
  cases hg
  split at h
  · cases h
    exact absurd hq (by simp)
  · cases h
    exact absurd hq (by simp)
  · rename_i expected hf
    cases expected with
    | none => simpa using ht.types _ (Chain.mem_records_of_find? hf)
    | some expected =>
      dsimp only at h
      split at h
      · cases h
        exact absurd hq (by simp)
      · rename_i hty
        rw [not_not] at hty
        cases h
        exact ⟨hty ▸ hf, rfl⟩

theorem condition_quiet {construct : String} {position : Position} {ty : Ty} {u : Unit}
    (h : (condition construct position (some ty)).run s = (u, s'))
    (hq : s'.errors.length ≤ s.errors.length) : ty = .bool ∧ s' = s := by
  rw [condition] at h
  split at h
  · cases h
    exact absurd hq (by simp)
  · rename_i hty
    cases h
    exact ⟨not_not.1 hty, rfl⟩

theorem loopControl_quiet {keyword : String} {u : Unit}
    (h : (loopControl node keyword).run s = (u, s')) (hq : s'.errors.length ≤ s.errors.length) :
    0 < s.loopDepth ∧ s' = s := by
  obtain ⟨_, _, hg, h⟩ := run_bind_eq h
  cases hg
  split at h
  · cases h
    exact absurd hq (by simp)
  · rename_i hd
    cases h
    exact ⟨Nat.pos_of_ne_zero hd, rfl⟩

end Steps

theorem inFrame_run {α : Type} {m : Checker α} {s s' : State} {a : α}
    (h : (inFrame m).run s = (a, s')) :
    ∃ s₁, m.run { s with scopes := s.scopes.push } = (a, s₁) ∧
      s' = { s₁ with scopes := s₁.scopes.pop } := by
  cases h
  exact ⟨_, rfl, rfl⟩

theorem atLoopDepth_run {α : Type} {change : Nat → Nat} {m : Checker α} {s s' : State} {a : α}
    (h : (atLoopDepth change m).run s = (a, s')) :
    ∃ s₁, m.run { s with loopDepth := change s.loopDepth } = (a, s₁) ∧
      s' = { s₁ with loopDepth := s.loopDepth } := by
  cases h
  exact ⟨_, rfl, rfl⟩

/-! ## Values that are needed -/

/-- If the expression is checked from `s` without a fault, what is found out is the type that it has
by the rules, or that it has no value. -/
def Sound (table : Annotations) (s : State) (e : Expr) : Prop :=
  ∀ a s', (expr e).run s = (a, s') → Clean e.parts table s s' →
    ∃ r, a = .of r ∧ e.HasType table.Notes s.scopes r ∧ s'.scopes = s.scopes

section Values

variable {e : Expr} {table : Annotations} {s s' : State}

theorem Sound.value {r : Option Ty} (he : Sound table s e) (h : (value e).run s = (r, s'))
    (hc : Clean e.parts table s s') :
    ∃ ty, r = some ty ∧ e.HasType table.Notes s.scopes (some ty) ∧ s'.scopes = s.scopes := by
  obtain ⟨a, s₁, hx, h⟩ := run_bind_eq h
  have hq := Nat.le_trans hc.quiet ((expr_keeping e).of_run hx).faults
  obtain ⟨r, rfl, ht, hs⟩ := he a s₁ hx (hc.upTo ((require_keeping _ _).of_run h))
  obtain ⟨ty, rfl, rfl, rfl⟩ := require_quiet h hq
  exact ⟨ty, rfl, ht, hs⟩

theorem Sound.test {construct : String} {u : Unit} (he : Sound table s e)
    (h : (test construct e).run s = (u, s')) (hc : Clean e.parts table s s') :
    e.HasType table.Notes s.scopes (some .bool) ∧ s'.scopes = s.scopes := by
  obtain ⟨r, s₁, hx, h⟩ := run_bind_eq h
  have hq := Nat.le_trans hc.quiet ((value_keeping e).of_run hx).faults
  obtain ⟨ty, rfl, ht, hs⟩ := he.value hx (hc.upTo ((condition_keeping _ _ _).of_run h))
  obtain ⟨rfl, rfl⟩ := condition_quiet h hq
  exact ⟨ht, hs⟩

theorem Sound.introduce {t : Stmt} {name : String} {isConst : Bool} {declared : Option Ty}
    {u : Unit} (he : Sound table s e)
    (h : (introduce t.node name isConst declared e).run s = (u, s'))
    (hc : Clean (e.parts ++ [.stmt t]) table s s') :
    ∃ ty, e.HasType table.Notes s.scopes (some ty) ∧ (∀ ty' ∈ declared, ty' = ty) ∧
      table.Notes t.node.id ty ∧ s.scopes.Adds name ⟨isConst, some ty⟩ s'.scopes := by
  obtain ⟨r, s₁, hx, hr⟩ := run_bind_eq h
  obtain ⟨r', s₂, hi, hd⟩ := run_bind_eq hr
  have hid : t.node.id ∈ numbers [.stmt t] := List.mem_singleton.2 rfl
  have k₁ := (value_keeping e).of_run hx
  have k₂ : Keeps (numbers [.stmt t]) s₁ s₂ := (initialType_keeping _ _ _).of_run hi
  have k₃ := (declare_keeping hid _ _ _).of_run hd
  obtain ⟨ty, rfl, ht, hs⟩ := he.value hx (hc.left (k₂.trans k₃))
  have hown := hc.right k₁ (hs ▸ hc.typed)
  obtain ⟨rfl, hdeclared, rfl⟩ := initialType_quiet hi (Nat.le_trans k₃.faults hown.quiet)
  obtain ⟨ha, hn⟩ := declare_quiet hd hown.quiet hown.typed.nonempty
  rw [hs] at ha
  exact ⟨ty, ht, hdeclared, hown.noted hid hn, ha⟩

end Values

/-! ## The whole tree -/

mutual

theorem expr_sound : (e : Expr) → ∀ table s, Sound table s e
  | .literal node value, table, s, a, s', h, hc => by
    rw [expr] at h
    cases h
    exact ⟨some value.ty, rfl, .literal (hc.noted (List.mem_singleton.2 rfl) rfl), rfl⟩
  | .unary node op operand, table, s, a, s', h, hc => by
    rw [expr_unary] at h
    rw [Expr.parts] at hc
    obtain ⟨r, s₁, hx, h⟩ := run_bind_eq h
    have hid : node.id ∈ numbers [.expr (.unary node op operand)] := List.mem_singleton.2 rfl
    have hin := hc.left ((unary_keeping hid _ _).of_run h)
    obtain ⟨ty, rfl, ht, hs⟩ := (expr_sound operand table s).value hx hin
    have hown := hc.right ((value_keeping operand).of_run hx) (hs ▸ hc.typed)
    obtain ⟨ty', hty, rfl, rfl⟩ := unary_quiet h hown.quiet
    exact ⟨some ty', rfl, .unary ht hty (hown.noted hid rfl), hs⟩
  | .binary node op left right, table, s, a, s', h, hc => by
    rw [expr_binary] at h
    rw [Expr.parts] at hc
    obtain ⟨r, s₁, hx, h⟩ := run_bind_eq h
    obtain ⟨r', s₂, hy, h⟩ := run_bind_eq h
    have hid : node.id ∈ numbers [.expr (.binary node op left right)] := List.mem_singleton.2 rfl
    have kx := (value_keeping left).of_run hx
    have ky := (value_keeping right).of_run hy
    have hin := hc.left ((binary_keeping hid _ _ _).of_run h)
    obtain ⟨ty, rfl, ht, hs⟩ := (expr_sound left table s).value hx (hin.left ky)
    obtain ⟨ty', rfl, ht', hs'⟩ :=
      (expr_sound right table s₁).value hy (hin.right kx (hs ▸ hc.typed))
    rw [hs] at ht' hs'
    have hown := hc.right (kx.append ky) (hs' ▸ hc.typed)
    obtain ⟨ty'', hty, rfl, rfl⟩ := binary_quiet h hown.quiet
    exact ⟨some ty'', rfl, .binary ht ht' hty (hown.noted hid rfl), hs'⟩
  | .load node name, table, s, a, s', h, hc => by
    rw [expr] at h
    obtain ⟨isConst, ty, hf, rfl, rfl⟩ := load_quiet h hc.quiet hc.typed
    exact ⟨some ty, rfl, .load hf (hc.noted (List.mem_singleton.2 rfl) rfl), rfl⟩
  | .compound node body, table, s, a, s', h, hc => by
    rw [expr] at h
    rw [Expr.parts] at hc
    obtain ⟨x, s₁, hx, h⟩ := run_bind_eq h
    have k : Keeps (numbers [.expr (.compound node body)]) s₁ s' :=
      (conclude_keeping (List.mem_singleton.2 rfl) _).of_run h
    have hc' := hc.left k
    obtain ⟨s₂, hb, rfl⟩ := atLoopDepth_run hx
    obtain ⟨r, rfl, ht, hs⟩ := block_sound body table _ _ _ hb { hc' with }
    cases r with
    | none =>
      cases h
      exact ⟨none, rfl, .compound ht nofun, hs⟩
    | some ty =>
      cases h
      refine ⟨some ty, rfl, .compound ht ?_, hs⟩
      rintro ty' ⟨⟩
      exact hc.noted (by simp [Part.node, Expr.node]) rfl

theorem block_sound : (b : Block) → ∀ table s a s', (block b).run s = (a, s') →
    Clean b.parts table s s' →
    ∃ r, a = .of r ∧ b.HasType table.Notes (0 < s.loopDepth) s.scopes r ∧ s'.scopes = s.scopes
  | ⟨_, statements⟩, table, s, a, s', h, hc => by
    rw [block] at h
    rw [Block.parts] at hc
    obtain ⟨s₁, hs, rfl⟩ := inFrame_run h
    obtain ⟨r, rfl, ht⟩ := stmts_sound statements none table _ _ _ hs
      { hc with typed := hc.typed.push }
    exact ⟨r, rfl, .intro ht, ((stmts_keeping _ statements).of_run hs).outer⟩

theorem stmt_sound : (t : Stmt) → ∀ table s a s', (stmt t).run s = (a, s') →
    Clean t.parts table s s' →
    ∃ r, a = .of r ∧ t.WellTyped table.Notes (0 < s.loopDepth) s.scopes s'.scopes r
  | .declareVar node name declared none, table, s, a, s', h, hc => by
    rw [stmt] at h
    obtain ⟨u, s₁, hd, h⟩ := run_bind_eq h
    cases h
    cases declared with
    | none => exact absurd trivial (hc.notBare _ (List.mem_singleton.2 rfl))
    | some ty =>
      obtain ⟨ha, hn⟩ := declare_quiet hd hc.quiet hc.typed.nonempty
      exact ⟨none, rfl, .declareZero (hc.noted (List.mem_singleton.2 rfl) hn) ha⟩
  | .declareVar node name declared (some init), table, s, a, s', h, hc => by
    rw [stmt_declareVar] at h
    rw [Stmt.parts] at hc
    obtain ⟨u, s₁, hd, h⟩ := run_bind_eq h
    cases h
    obtain ⟨ty, ht, hdeclared, hn, ha⟩ := Sound.introduce
      (t := .declareVar node name declared (some init)) (expr_sound init table s) hd hc
    exact ⟨none, rfl, .declareVar ht hdeclared hn ha⟩
  | .declareConst node name declared init, table, s, a, s', h, hc => by
    rw [stmt_declareConst] at h
    rw [Stmt.parts] at hc
    obtain ⟨u, s₁, hd, h⟩ := run_bind_eq h
    cases h
    obtain ⟨ty, ht, hdeclared, hn, ha⟩ := Sound.introduce
      (t := .declareConst node name declared init) (expr_sound init table s) hd hc
    exact ⟨none, rfl, .declareConst ht hdeclared hn ha⟩
  | .assign node name value, table, s, a, s', h, hc => by
    rw [stmt_assign] at h
    rw [Stmt.parts] at hc
    obtain ⟨r, s₁, hx, h⟩ := run_bind_eq h
    obtain ⟨u, s₂, ha, h⟩ := run_bind_eq h
    cases h
    have hin := hc.left ((assign_keeping _ _ _ _).of_run ha)
    obtain ⟨ty, rfl, ht, hs⟩ := (expr_sound value table s).value hx hin
    have hown := hc.right ((value_keeping value).of_run hx) (hs ▸ hc.typed)
    obtain ⟨hf, rfl⟩ := assign_quiet ha hown.quiet hown.typed
    rw [hs] at hf ⊢
    exact ⟨none, rfl, .assign ht hf⟩
  | .print node value, table, s, a, s', h, hc => by
    rw [stmt_print] at h
    rw [Stmt.parts] at hc
    obtain ⟨r, s₁, hx, h⟩ := run_bind_eq h
    cases h
    obtain ⟨ty, rfl, ht, hs⟩ := (expr_sound value table s).value hx (hc.left .refl)
    rw [hs]
    exact ⟨none, rfl, .print ht⟩
  | .ifElse node test consequence none, table, s, a, s', h, hc => by
    rw [stmt_ifOnly] at h
    rw [Stmt.parts] at hc
    obtain ⟨u, s₁, hx, h⟩ := run_bind_eq h
    obtain ⟨y, s₂, hy, h⟩ := run_bind_eq h
    cases h
    have hin := hc.left .refl
    have kx := (test_keeping "if" test).of_run hx
    have ky := (block_keeping consequence).of_run hy
    obtain ⟨ht, hs⟩ := (expr_sound test table s).test hx (hin.left ky)
    obtain ⟨r, rfl, hb, hs'⟩ := block_sound consequence _ _ _ _ hy (hin.right kx (hs ▸ hc.typed))
    rw [kx.depth, hs] at hb
    rw [hs', hs]
    exact ⟨none, rfl, .ifOnly ht hb⟩
  | .ifElse node test consequence (some alternative), table, s, a, s', h, hc => by
    rw [stmt_ifElse] at h
    rw [Stmt.parts] at hc
    obtain ⟨u, s₁, hx, h⟩ := run_bind_eq h
    obtain ⟨y, s₂, hy, h⟩ := run_bind_eq h
    obtain ⟨z, s₃, hz, h⟩ := run_bind_eq h
    cases h
    have hin := hc.left .refl
    have kx := (test_keeping "if" test).of_run hx
    have ky := (block_keeping consequence).of_run hy
    have hfirst := hin.left ((block_keeping alternative).of_run hz)
    obtain ⟨ht, hs⟩ := (expr_sound test table s).test hx (hfirst.left ky)
    obtain ⟨r, rfl, hb, hs'⟩ := block_sound consequence _ _ _ _ hy (hfirst.right kx (hs ▸ hc.typed))
    rw [hs] at hb hs'
    obtain ⟨r', rfl, hb', hs''⟩ := block_sound alternative _ _ _ _ hz
      (hin.right (kx.append ky) (hs' ▸ hc.typed))
    rw [kx.depth] at hb
    rw [ky.depth, kx.depth, hs'] at hb'
    rw [hs'', hs']
    exact ⟨none, rfl, .ifElse ht hb hb'⟩
  | .whileLoop node test body, table, s, a, s', h, hc => by
    rw [stmt_whileLoop, (block_keeping body).inLoop_eq] at h
    rw [Stmt.parts] at hc
    obtain ⟨u, s₁, hx, h⟩ := run_bind_eq h
    obtain ⟨y, s₂, hy, h⟩ := run_bind_eq h
    cases h
    have hin := hc.left .refl
    have kx := (test_keeping "while" test).of_run hx
    have ky := (atLoopDepth_keeping (block_keeping body)).of_run hy
    obtain ⟨ht, hs⟩ := (expr_sound test table s).test hx (hin.left ky)
    have hbody := hin.right kx (hs ▸ hc.typed)
    obtain ⟨s₃, hb, rfl⟩ := atLoopDepth_run hy
    obtain ⟨r, rfl, hb, hs'⟩ := block_sound body _ _ _ _ hb { hbody with }
    dsimp only at hb hs' ⊢
    rw [decide_eq_true (Nat.succ_pos _), hs] at hb
    rw [hs', hs]
    exact ⟨none, rfl, .whileLoop ht hb⟩
  | .breakLoop node, table, s, a, s', h, hc => by
    rw [stmt] at h
    obtain ⟨u, s₁, hl, h⟩ := run_bind_eq h
    cases h
    obtain ⟨hd, rfl⟩ := loopControl_quiet hl hc.quiet
    rw [decide_eq_true hd]
    exact ⟨none, rfl, .breakLoop⟩
  | .continueLoop node, table, s, a, s', h, hc => by
    rw [stmt] at h
    obtain ⟨u, s₁, hl, h⟩ := run_bind_eq h
    cases h
    obtain ⟨hd, rfl⟩ := loopControl_quiet hl hc.quiet
    rw [decide_eq_true hd]
    exact ⟨none, rfl, .continueLoop⟩
  | .expr node value, table, s, a, s', h, hc => by
    rw [stmt] at h
    rw [Stmt.parts] at hc
    have hin := hc.left .refl
    obtain ⟨r, rfl, ht, hs⟩ := expr_sound value table s _ _ h hin
    rw [hs]
    exact ⟨r, rfl, .expr ht⟩

theorem stmts_sound : (list : List Stmt) → ∀ last table s a s',
    (stmts (.of last) list).run s = (a, s') → Clean (partsAll list) table s s' →
    ∃ r, a = .of r ∧
      Sequence table.Notes (0 < s.loopDepth) s.scopes last list s'.scopes r
  | [], last, table, s, a, s', h, hc => by
    rw [stmts] at h
    cases h
    exact ⟨last, rfl, .nil⟩
  | t :: rest, last, table, s, a, s', h, hc => by
    rw [stmts] at h
    rw [partsAll] at hc
    obtain ⟨x, s₁, hx, h⟩ := run_bind_eq h
    have k₁ := (stmt_keeping t).of_run hx
    have k₂ := (stmts_keeping _ rest).of_run h
    obtain ⟨r, rfl, ht⟩ := stmt_sound t table _ _ _ hx (hc.left k₂)
    obtain ⟨r', rfl, ht'⟩ := stmts_sound rest r table _ _ _ h (hc.right k₁ (ht.typed hc.typed))
    rw [k₁.depth] at ht'
    exact ⟨r', rfl, .cons ht ht'⟩

end

end Checker

/-! ## Programs that are accepted -/

/-- A program that obeys the typing rules, with annotations that are right about it. -/
def CheckedProgram.WellTyped (p : CheckedProgram) : Prop :=
  ∃ Γ r, Sequence p.annotations.Notes false .initial none p.program.statements Γ r

theorem checkSource_eq_ok {source file : String} {p : CheckedProgram}
    (h : checkSource source file = .ok p) :
    Program.ofSource source file = .ok p.program ∧ p.program.check.errors = [] ∧
      p.annotations = p.program.check.annotations := by
  rw [checkSource] at h
  split at h
  · cases h
  · rename_i q hq
    rw [CheckResult.accept] at h
    split at h
    · rename_i hclean
      cases h
      exact ⟨hq, List.isEmpty_iff.1 hclean, rfl⟩
    · cases h

theorem checkSource_wellTyped {source file : String} {p : CheckedProgram}
    (h : checkSource source file = .ok p) : p.WellTyped := by
  obtain ⟨hsource, herrors, htable⟩ := checkSource_eq_ok h
  obtain ⟨tokens, -, htokens⟩ := bind_eq_ok.1 hsource
  obtain ⟨r, -, ht⟩ := Checker.stmts_sound _ none p.annotations .initial _ _ rfl {
    quiet := Nat.le_of_eq (congrArg List.length herrors)
    nodup := (Program.numbers_ofTokens htokens) ▸ List.nodup_range
    notBare := Program.not_bare_ofTokens htokens
    agrees := fun id _ => by rw [htable]; rfl
    typed := .initial }
  exact ⟨_, r, ht⟩

end Leveret
