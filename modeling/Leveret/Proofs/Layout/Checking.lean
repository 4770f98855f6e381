import Leveret.Proofs.Layout.Alike
import Leveret.Proofs.Typing.Exactness

/-!
# Checking does not see the layout

The checker goes through two trees that are alike in step. At any time the two checks have noted the
same types and found faults with the same causes, in places that may differ.
-/

namespace Leveret

namespace Checker

structure Similar (s t : State) : Prop where
  annotations : s.annotations = t.annotations
  causes : s.errors.map (·.cause) = t.errors.map (·.cause)
  depth : s.loopDepth = t.loopDepth
  scopes : s.scopes = t.scopes

/-- From similar states the two steps come to one result and to similar states. -/
def Parallel {α : Type} (m m' : Checker α) : Prop :=
  ∀ s t, Similar s t → (m.run s).1 = (m'.run t).1 ∧ Similar (m.run s).2 (m'.run t).2

section Parallel

variable {α β : Type} {m m' : Checker α} {f f' : α → Checker β} {node node' : Node}

theorem Parallel.pure (a : α) : Parallel (pure a) (pure a) := fun _ _ h => ⟨rfl, h⟩

theorem Parallel.bind (hm : Parallel m m') (hf : ∀ a, Parallel (f a) (f' a)) :
    Parallel (m >>= f) (m' >>= f') := by
  intro s t h
  obtain ⟨hresult, hstate⟩ := hm s t h
  have hrun : (m' >>= f').run t = (f' (m.run s).1).run (m'.run t).2 := by
    rw [hresult]
    rfl
  rw [hrun]
  exact hf (m.run s).1 _ _ hstate

theorem Parallel.look {f f' : State → Checker β}
    (hf : ∀ s t, Similar s t → Parallel (f s) (f' t)) : Parallel (get >>= f) (get >>= f') :=
  fun s t h => hf s t h s t h

theorem report_parallel (cause : Cause) (position position' : Position) :
    Parallel (report cause position) (report cause position') := by
  intro s t h
  refine ⟨rfl, { h with causes := ?_ }⟩
  change (s.errors ++ [Diagnostic.mk cause position]).map (·.cause) =
    (t.errors ++ [Diagnostic.mk cause position']).map (·.cause)
  simp [h.causes]

theorem annotate_parallel (id : Nat) (ty : Ty) : Parallel (annotate id ty) (annotate id ty) :=
  fun _ _ h => ⟨rfl, { h with annotations := congrArg (·.insert id ty) h.annotations }⟩

theorem conclude_parallel (hid : node.id = node'.id) (synthesis : Synthesis) :
    Parallel (conclude node synthesis) (conclude node' synthesis) := by
  cases synthesis with
  | typed ty =>
    unfold conclude
    rw [hid]
    exact .bind (annotate_parallel _ _) fun _ => .pure _
  | noValue | poisoned => exact .pure _

theorem require_parallel (position position' : Position) (synthesis : Synthesis) :
    Parallel (require position synthesis) (require position' synthesis) := by
  cases synthesis with
  | typed | poisoned => exact .pure _
  | noValue => exact .bind (report_parallel _ _ _) fun _ => .pure _

theorem unary_parallel (hid : node.id = node'.id) (op : UnaryOp) (operand : Option Ty) :
    Parallel (unary node op operand) (unary node' op operand) := by
  unfold unary
  split
  · exact .pure _
  · split
    · exact conclude_parallel hid _
    · exact .bind (report_parallel _ _ _) fun _ => .pure _

theorem binary_parallel (hid : node.id = node'.id) (op : BinaryOp) (left right : Option Ty) :
    Parallel (binary node op left right) (binary node' op left right) := by
  unfold binary
  split
  · split
    · exact conclude_parallel hid _
    · exact .bind (report_parallel _ _ _) fun _ => .pure _
  · exact .pure _

theorem load_parallel (hid : node.id = node'.id) (name : String) :
    Parallel (load node name) (load node' name) := by
  unfold load
  refine .look fun s t h => ?_
  rw [h.scopes]
  split
  · exact conclude_parallel hid _
  · exact .pure _
  · exact .bind (report_parallel _ _ _) fun _ => .pure _

theorem initialType_parallel (declared : Option Ty) (position position' : Position)
    (received : Option Ty) :
    Parallel (initialType declared position received) (initialType declared position' received) := by
  unfold initialType
  split
  · split
    · exact .bind (report_parallel _ _ _) fun _ => .pure _
    · exact .pure _
  · exact .pure _
  · exact .pure _

theorem declare_parallel (hid : node.id = node'.id) (name : String) (isConst : Bool)
    (ty : Option Ty) : Parallel (declare node name isConst ty) (declare node' name isConst ty) := by
  unfold declare
  rw [hid]
  split
  on_goal 1 => refine .bind (annotate_parallel _ _) fun _ => ?_
  all_goals
    refine .look fun s t h => ?_
    rw [h.scopes]
    split
    · exact fun _ _ _ => ⟨rfl, ⟨h.annotations, h.causes, h.depth, rfl⟩⟩
    · exact report_parallel _ _ _
    · exact .pure _

theorem assign_parallel (name : String) (position position' : Position) (received : Option Ty) :
    Parallel (assign node name position received) (assign node' name position' received) := by
  unfold assign
  refine .look fun s t h => ?_
  rw [h.scopes]
  split
  · exact report_parallel _ _ _
  · exact report_parallel _ _ _
  · split
    · split
      · exact report_parallel _ _ _
      · exact .pure _
    · exact .pure _

theorem condition_parallel (construct : String) (position position' : Position)
    (received : Option Ty) :
    Parallel (condition construct position received) (condition construct position' received) := by
  unfold condition
  split
  · split
    · exact report_parallel _ _ _
    · exact .pure _
  · exact .pure _

theorem loopControl_parallel (keyword : String) :
    Parallel (loopControl node keyword) (loopControl node' keyword) := by
  unfold loopControl
  refine .look fun s t h => ?_
  rw [h.depth]
  split
  · exact report_parallel _ _ _
  · exact .pure _

theorem inFrame_parallel (hm : Parallel m m') : Parallel (inFrame m) (inFrame m') := by
  intro s t h
  obtain ⟨hresult, hstate⟩ := hm { s with scopes := s.scopes.push }
    { t with scopes := t.scopes.push } { h with scopes := congrArg Chain.push h.scopes }
  exact ⟨hresult, { hstate with scopes := congrArg Chain.pop hstate.scopes }⟩

theorem atLoopDepth_parallel {change : Nat → Nat} (hm : Parallel m m') :
    Parallel (atLoopDepth change m) (atLoopDepth change m') := by
  intro s t h
  obtain ⟨hresult, hstate⟩ := hm { s with loopDepth := change s.loopDepth }
    { t with loopDepth := change t.loopDepth } { h with depth := congrArg change h.depth }
  exact ⟨hresult, { hstate with depth := h.depth }⟩

end Parallel

end Checker

open Checker

mutual

theorem Expr.Alike.check {e e' : Expr} : e.Alike e' → Parallel (expr e) (expr e')
  | .literal hid => by
    rw [expr, expr]
    exact conclude_parallel hid _
  | .unary hid h => by
    rw [expr, expr]
    refine .bind h.check fun _ => .bind (require_parallel _ _ _) fun _ => ?_
    exact unary_parallel hid _ _
  | .binary hid h h' => by
    rw [expr, expr]
    refine .bind h.check fun _ => .bind (require_parallel _ _ _) fun _ => ?_
    refine .bind h'.check fun _ => .bind (require_parallel _ _ _) fun _ => ?_
    exact binary_parallel hid _ _ _
  | .load hid => by
    rw [expr, expr]
    exact load_parallel hid _
  | .compound hid h => by
    rw [expr, expr]
    exact .bind (atLoopDepth_parallel h.check) fun _ => conclude_parallel hid _

theorem Block.Alike.check {b b' : Block} : b.Alike b' → Parallel (block b) (block b')
  | .intro h => by
    rw [block, block]
    exact inFrame_parallel (h.check _)

theorem Stmt.Alike.check {t t' : Stmt} : t.Alike t' → Parallel (stmt t) (stmt t')
  | .declareZero hid => by
    rw [stmt, stmt]
    exact .bind (declare_parallel hid _ _ _) fun _ => .pure _
  | .declareVar hid h | .declareConst hid h => by
    rw [stmt, stmt]
    refine .bind h.check fun _ => .bind (require_parallel _ _ _) fun _ => ?_
    refine .bind (initialType_parallel _ _ _ _) fun _ => ?_
    exact .bind (declare_parallel hid _ _ _) fun _ => .pure _
  | .assign h => by
    rw [stmt, stmt]
    refine .bind h.check fun _ => .bind (require_parallel _ _ _) fun _ => ?_
    exact .bind (assign_parallel _ _ _ _) fun _ => .pure _
  | .print h => by
    rw [stmt, stmt]
    exact .bind h.check fun _ => .bind (require_parallel _ _ _) fun _ => .pure _
  | .ifOnly h hb => by
    rw [stmt, stmt]
    refine .bind h.check fun _ => .bind (require_parallel _ _ _) fun _ => ?_
    exact .bind (condition_parallel _ _ _ _) fun _ => .bind hb.check fun _ => .pure _
  | .ifElse h hb hb' => by
    rw [stmt, stmt]
    refine .bind h.check fun _ => .bind (require_parallel _ _ _) fun _ => ?_
    refine .bind (condition_parallel _ _ _ _) fun _ => .bind hb.check fun _ => ?_
    exact .bind hb'.check fun _ => .pure _
  | .whileLoop h hb => by
    rw [stmt, stmt, (block_keeping _).inLoop_eq, (block_keeping _).inLoop_eq]
    refine .bind h.check fun _ => .bind (require_parallel _ _ _) fun _ => ?_
    refine .bind (condition_parallel _ _ _ _) fun _ => ?_
    exact .bind (atLoopDepth_parallel hb.check) fun _ => .pure _
  | .breakLoop | .continueLoop => by
    rw [stmt, stmt]
    exact .bind (loopControl_parallel _) fun _ => .pure _
  | .expr h => by
    rw [stmt, stmt]
    exact h.check

theorem AlikeAll.check {list list' : List Stmt} : AlikeAll list list' →
    ∀ last, Parallel (stmts last list) (stmts last list')
  | .nil, last => by
    rw [stmts]
    exact .pure _
  | .cons h hrest, last => by
    rw [stmts, stmts]
    exact .bind h.check fun _ => hrest.check _

end

theorem Program.check_of_alike {p q : Program} (h : AlikeAll p.statements q.statements) :
    p.check.annotations = q.check.annotations ∧
      p.check.errors.map (·.cause) = q.check.errors.map (·.cause) := by
  obtain ⟨-, hstate⟩ := h.check .noValue .initial .initial ⟨rfl, rfl, rfl, rfl⟩
  exact ⟨hstate.annotations, hstate.causes⟩

end Leveret
