import Leveret.Pipeline
import Leveret.Proofs.Parsing.Numbering
import Leveret.Proofs.Typing.Rules

/-!
# What the checker leaves alone

Faults are never taken back, what is declared in a frame goes with it, and only the nodes that are
checked get annotations. A node's annotation stays, because no other node has its number.
-/

namespace Leveret

namespace Checker

/-! ## Values that are needed

Most constructs need the value of an expression. The tree is checked the same if such an expression
and the demand for its value are one step. -/

def value (e : Expr) : Checker (Option Ty) := do require e.position (← expr e)

def test (construct : String) (e : Expr) : Checker Unit := do
  condition construct e.position (← value e)

def introduce (node : Node) (name : String) (isConst : Bool) (declared : Option Ty)
    (init : Expr) : Checker Unit := do
  declare node name isConst (← initialType declared init.position (← value init))

section Equations

variable (node : Node) (name : String) (declared : Option Ty)

theorem expr_unary (op : UnaryOp) (operand : Expr) :
    expr (.unary node op operand) = value operand >>= unary node op := by
  rw [expr, value, bind_assoc]

theorem expr_binary (op : BinaryOp) (left right : Expr) :
    expr (.binary node op left right) =
      value left >>= fun ty => value right >>= binary node op ty := by
  simp only [expr, value, bind_assoc]

theorem stmt_declareVar (init : Expr) :
    stmt (.declareVar node name declared (some init)) =
      introduce node name false declared init >>= fun _ => pure .noValue := by
  simp only [stmt, introduce, value, bind_assoc]

theorem stmt_declareConst (init : Expr) :
    stmt (.declareConst node name declared init) =
      introduce node name true declared init >>= fun _ => pure .noValue := by
  simp only [stmt, introduce, value, bind_assoc]

theorem stmt_assign (e : Expr) :
    stmt (.assign node name e) =
      value e >>= fun ty => assign node name e.position ty >>= fun _ => pure .noValue := by
  simp only [stmt, value, bind_assoc]

theorem stmt_print (e : Expr) :
    stmt (.print node e) = value e >>= fun _ => pure .noValue := by
  simp only [stmt, value, bind_assoc]

theorem stmt_ifOnly (e : Expr) (consequence : Block) :
    stmt (.ifElse node e consequence none) =
      test "if" e >>= fun _ => block consequence >>= fun _ => pure .noValue := by
  simp only [stmt, test, value, bind_assoc]

theorem stmt_ifElse (e : Expr) (consequence alternative : Block) :
    stmt (.ifElse node e consequence (some alternative)) =
      test "if" e >>= fun _ => block consequence >>= fun _ =>
        block alternative >>= fun _ => pure .noValue := by
  simp only [stmt, test, value, bind_assoc]

theorem stmt_whileLoop (e : Expr) (body : Block) :
    stmt (.whileLoop node e body) =
      test "while" e >>= fun _ => inLoop (block body) >>= fun _ => pure .noValue := by
  simp only [stmt, test, value, bind_assoc]

end Equations

/-! ## Runs -/

section Runs

variable {α β : Type} {m : Checker α} {f : α → Checker β} {s s' : State}
  {b : β}

theorem run_bind (m : Checker α) (f : α → Checker β) (s : State) :
    (m >>= f).run s = (f (m.run s).1).run (m.run s).2 := rfl

theorem run_get_bind (f : State → Checker α) (s : State) : (get >>= f).run s = (f s).run s := rfl

theorem run_bind_eq (h : (m >>= f).run s = (b, s')) :
    ∃ a s₁, m.run s = (a, s₁) ∧ (f a).run s₁ = (b, s') := ⟨_, _, rfl, h⟩

end Runs

/-! ## What checking leaves alone -/

/-- From `s` to `s'` faults are only added, scopes outside the innermost frame and the loop depth
stay, and only nodes with a number in `ids` get annotations. -/
structure Keeps (ids : List Nat) (s s' : State) : Prop where
  errors : s.errors <+: s'.errors
  depth : s'.loopDepth = s.loopDepth
  outer : s'.scopes.pop = s.scopes.pop
  elsewhere : ∀ id ∉ ids, s'.annotations[id]? = s.annotations[id]?

section Keeps

variable {ids ids' : List Nat} {s s' s'' : State}

theorem Keeps.refl : Keeps ids s s := ⟨List.prefix_refl _, rfl, rfl, fun _ _ => rfl⟩

theorem Keeps.trans (h : Keeps ids s s') (h' : Keeps ids s' s'') : Keeps ids s s'' where
  errors := h.errors.trans h'.errors
  depth := h'.depth.trans h.depth
  outer := h'.outer.trans h.outer
  elsewhere id hid := (h'.elsewhere id hid).trans (h.elsewhere id hid)

theorem Keeps.mono (h : Keeps ids s s') (hs : ids ⊆ ids') : Keeps ids' s s' :=
  { h with elsewhere := fun id hid => h.elsewhere id fun h => hid (hs h) }

theorem Keeps.append {parts parts' : List Part} (h : Keeps (numbers parts) s s')
    (h' : Keeps (numbers parts') s' s'') : Keeps (numbers (parts ++ parts')) s s'' :=
  (h.mono (by simp)).trans (h'.mono (by simp))

theorem Keeps.faults (h : Keeps ids s s') : s.errors.length ≤ s'.errors.length :=
  h.errors.length_le

end Keeps

def Keeping {α : Type} (ids : List Nat) (m : Checker α) : Prop := ∀ s, Keeps ids s (m.run s).2

section Keeping

variable {α β : Type} {ids ids' : List Nat} {m : Checker α} {f : α → Checker β}

theorem Keeping.of_run {s s' : State} {a : α} (hm : Keeping ids m) (h : m.run s = (a, s')) :
    Keeps ids s s' := by
  have hk := hm s
  rw [h] at hk
  exact hk

theorem Keeping.pure (a : α) : Keeping ids (pure a : Checker α) := fun _ => .refl

theorem Keeping.bind (hm : Keeping ids m) (hf : ∀ a, Keeping ids (f a)) :
    Keeping ids (m >>= f) := fun s => (hm s).trans (hf _ _)

theorem Keeping.get {f : State → Checker α} (hf : ∀ s, Keeps ids s ((f s).run s).2) :
    Keeping ids (get >>= f) := hf

theorem Keeping.mono (hm : Keeping ids m) (hs : ids ⊆ ids') : Keeping ids' m :=
  fun s => (hm s).mono hs

theorem report_keeping (cause : Cause) (position : Position) :
    Keeping ids (report cause position) :=
  fun _ => ⟨List.prefix_append _ _, rfl, rfl, fun _ _ => rfl⟩

theorem annotate_keeping {id : Nat} (hid : id ∈ ids) (ty : Ty) :
    Keeping ids (annotate id ty) := by
  intro s
  refine ⟨List.prefix_refl _, rfl, rfl, fun id' hid' => ?_⟩
  have hne : compare id id' ≠ .eq := by
    rw [Ne, Nat.compare_eq_eq]
    rintro rfl
    exact hid' hid
  change (s.annotations.insert id ty)[id']? = _
  rw [Std.TreeMap.getElem?_insert, if_neg hne]

theorem conclude_keeping {node : Node} (hid : node.id ∈ ids) (synthesis : Synthesis) :
    Keeping ids (conclude node synthesis) := by
  cases synthesis with
  | typed ty => exact .bind (annotate_keeping hid ty) fun _ => .pure _
  | noValue | poisoned => exact .pure _

theorem require_keeping (position : Position) (synthesis : Synthesis) :
    Keeping ids (require position synthesis) := by
  cases synthesis with
  | typed ty => exact .pure _
  | poisoned => exact .pure _
  | noValue => exact .bind (report_keeping _ _) fun _ => .pure _

theorem inFrame_keeping (hm : Keeping ids m) : Keeping ids (inFrame m) := by
  intro s
  have h := hm { s with scopes := s.scopes.push }
  exact ⟨h.errors, h.depth, congrArg Chain.pop h.outer, h.elsewhere⟩

theorem atLoopDepth_keeping {change : Nat → Nat} (hm : Keeping ids m) :
    Keeping ids (atLoopDepth change m) := by
  intro s
  have h := hm { s with loopDepth := change s.loopDepth }
  exact ⟨h.errors, rfl, h.outer, h.elsewhere⟩

theorem inLoop_keeping (hm : Keeping ids m) : Keeping ids (inLoop m) := by
  intro s
  have h := hm { s with loopDepth := s.loopDepth + 1 }
  exact ⟨h.errors, congrArg (· - 1) h.depth, h.outer, h.elsewhere⟩

/-- Where a step keeps the loop depth, leaving the loop is going back to the depth before. -/
theorem Keeping.inLoop_eq (hm : Keeping ids m) : inLoop m = atLoopDepth (· + 1) m := by
  funext s
  let inside : State := { s with loopDepth := s.loopDepth + 1 }
  have h : (m.run inside).2.loopDepth - 1 = s.loopDepth := congrArg (· - 1) (hm inside).depth
  exact congrArg
    (fun depth => ((m.run inside).1, { (m.run inside).2 with loopDepth := depth })) h

theorem unary_keeping {node : Node} (hid : node.id ∈ ids) (op : UnaryOp) (operand : Option Ty) :
    Keeping ids (unary node op operand) := by
  unfold unary
  split
  · exact .pure _
  · split
    · exact conclude_keeping hid _
    · exact .bind (report_keeping _ _) fun _ => .pure _

theorem binary_keeping {node : Node} (hid : node.id ∈ ids) (op : BinaryOp)
    (left right : Option Ty) : Keeping ids (binary node op left right) := by
  unfold binary
  split
  · split
    · exact conclude_keeping hid _
    · exact .bind (report_keeping _ _) fun _ => .pure _
  · exact .pure _

theorem load_keeping {node : Node} (hid : node.id ∈ ids) (name : String) :
    Keeping ids (load node name) := by
  refine .bind (fun _ => .refl) fun s => ?_
  split
  · exact conclude_keeping hid _
  · exact .pure _
  · exact .bind (report_keeping _ _) fun _ => .pure _

theorem initialType_keeping (declared : Option Ty) (position : Position) (received : Option Ty) :
    Keeping ids (initialType declared position received) := by
  unfold initialType
  split
  · split
    · exact .bind (report_keeping _ _) fun _ => .pure _
    · exact .pure _
  · exact .pure _
  · exact .pure _

theorem declare_keeping {node : Node} (hid : node.id ∈ ids) (name : String) (isConst : Bool)
    (ty : Option Ty) : Keeping ids (declare node name isConst ty) := by
  unfold declare
  split
  on_goal 1 => refine .bind (annotate_keeping hid _) fun _ => ?_
  all_goals
    refine .get fun s => ?_
    split
    · rename_i hd
      exact ⟨List.prefix_refl _, rfl, (Chain.declare_eq_ok.1 hd).pop, fun _ _ => rfl⟩
    · exact report_keeping _ _ s
    · exact .refl

theorem assign_keeping (node : Node) (name : String) (position : Position)
    (received : Option Ty) : Keeping ids (assign node name position received) := by
  refine .bind (fun _ => .refl) fun s => ?_
  split
  · exact report_keeping _ _
  · exact report_keeping _ _
  · split
    · split
      · exact report_keeping _ _
      · exact .pure _
    · exact .pure _

theorem condition_keeping (construct : String) (position : Position) (received : Option Ty) :
    Keeping ids (condition construct position received) := by
  unfold condition
  split
  · split
    · exact report_keeping _ _
    · exact .pure _
  · exact .pure _

theorem loopControl_keeping (node : Node) (keyword : String) :
    Keeping ids (loopControl node keyword) := by
  refine .bind (fun _ => .refl) fun s => ?_
  split
  · exact report_keeping _ _
  · exact .pure _

theorem Keeping.value {e : Expr} (h : Keeping ids (expr e)) : Keeping ids (value e) :=
  .bind h fun _ => require_keeping _ _

theorem Keeping.test {construct : String} {e : Expr} (h : Keeping ids (expr e)) :
    Keeping ids (test construct e) :=
  .bind h.value fun _ => condition_keeping _ _ _

theorem Keeping.introduce {node : Node} {name : String} {isConst : Bool} {declared : Option Ty}
    {init : Expr} (hid : node.id ∈ ids) (h : Keeping ids (expr init)) :
    Keeping ids (introduce node name isConst declared init) :=
  .bind h.value fun _ => .bind (initialType_keeping _ _ _) fun _ => declare_keeping hid _ _ _

end Keeping

mutual

theorem expr_keeping : (e : Expr) → Keeping (numbers e.parts) (expr e)
  | .literal node value => by
    rw [expr]
    exact conclude_keeping (by simp [Expr.parts, Part.node, Expr.node]) _
  | .unary node op operand => by
    rw [expr_unary]
    refine .bind ((expr_keeping operand).mono (by simp [Expr.parts])).value fun _ => ?_
    exact unary_keeping (by simp [Expr.parts, Part.node, Expr.node]) _ _
  | .binary node op left right => by
    rw [expr_binary]
    refine .bind ((expr_keeping left).mono (by simp [Expr.parts])).value fun _ => ?_
    refine .bind ((expr_keeping right).mono (by simp [Expr.parts])).value fun _ => ?_
    exact binary_keeping (by simp [Expr.parts, Part.node, Expr.node]) _ _ _
  | .load node name => by
    rw [expr]
    exact load_keeping (by simp [Expr.parts, Part.node, Expr.node]) _
  | .compound node body => by
    rw [expr]
    have hbody := (block_keeping body).mono
      (show _ ⊆ numbers (Expr.compound node body).parts by simp [Expr.parts])
    refine .bind (atLoopDepth_keeping hbody) fun _ => ?_
    exact conclude_keeping (by simp [Expr.parts, Part.node, Expr.node]) _

theorem block_keeping : (b : Block) → Keeping (numbers b.parts) (block b)
  | ⟨_, statements⟩ => by
    rw [block]
    exact inFrame_keeping (stmts_keeping .noValue statements)

theorem stmt_keeping : (s : Stmt) → Keeping (numbers s.parts) (stmt s)
  | .declareVar node name declared none => by
    rw [stmt]
    refine .bind (declare_keeping ?_ _ _ _) fun _ => .pure _
    simp [Stmt.parts, Part.node, Stmt.node]
  | .declareVar node name declared (some init) => by
    rw [stmt_declareVar]
    refine .bind (.introduce ?_ ((expr_keeping init).mono (by simp [Stmt.parts]))) fun _ => .pure _
    simp [Stmt.parts, Part.node, Stmt.node]
  | .declareConst node name declared init => by
    rw [stmt_declareConst]
    refine .bind (.introduce ?_ ((expr_keeping init).mono (by simp [Stmt.parts]))) fun _ => .pure _
    simp [Stmt.parts, Part.node, Stmt.node]
  | .assign node name value => by
    rw [stmt_assign]
    refine .bind ((expr_keeping value).mono (by simp [Stmt.parts])).value fun _ => ?_
    exact .bind (assign_keeping _ _ _ _) fun _ => .pure _
  | .print _ value => by
    rw [stmt_print]
    exact .bind ((expr_keeping value).mono (by simp [Stmt.parts])).value fun _ => .pure _
  | .ifElse _ test consequence none => by
    rw [stmt_ifOnly]
    refine .bind ((expr_keeping test).mono (by simp [Stmt.parts])).test fun _ => ?_
    exact .bind ((block_keeping consequence).mono (by simp [Stmt.parts])) fun _ => .pure _
  | .ifElse _ test consequence (some alternative) => by
    rw [stmt_ifElse]
    refine .bind ((expr_keeping test).mono (by simp [Stmt.parts])).test fun _ => ?_
    refine .bind ((block_keeping consequence).mono (by simp [Stmt.parts])) fun _ => ?_
    refine .bind ((block_keeping alternative).mono fun id hid => ?_) fun _ => .pure _
    simp [Stmt.parts, hid]
  | .whileLoop _ test body => by
    rw [stmt_whileLoop]
    refine .bind ((expr_keeping test).mono (by simp [Stmt.parts])).test fun _ => ?_
    refine .bind (inLoop_keeping ((block_keeping body).mono ?_)) fun _ => .pure _
    simp [Stmt.parts]
  | .breakLoop node | .continueLoop node => by
    rw [stmt]
    exact .bind (loopControl_keeping _ _) fun _ => .pure _
  | .expr _ value => by
    rw [stmt]
    exact (expr_keeping value).mono (by simp [Stmt.parts])

theorem stmts_keeping (last : Synthesis) :
    (list : List Stmt) → Keeping (numbers (partsAll list)) (stmts last list)
  | [] => by
    rw [stmts]
    exact .pure _
  | s :: rest => by
    rw [stmts]
    refine .bind ((stmt_keeping s).mono (by simp [partsAll])) fun _ => ?_
    exact (stmts_keeping _ rest).mono (by simp [partsAll])

end

theorem value_keeping (e : Expr) : Keeping (numbers e.parts) (value e) := (expr_keeping e).value

theorem test_keeping (construct : String) (e : Expr) :
    Keeping (numbers e.parts) (test construct e) := (expr_keeping e).test

end Checker

end Leveret
