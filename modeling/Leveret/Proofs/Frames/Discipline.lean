import Leveret.Proofs.Frames.Lowering
import Leveret.Proofs.Frames.Running
import Leveret.Proofs.Typing.Recovery

/-!
# The frames around a piece of program

Checking, running and lowering open a frame for every block, and the latter two may stop early.
However deep the blocks stand in each other and however the work on an expression, a block or a
statement ends, the frames from before are there again with the names they had. Only a declaration
leaves a name behind, in the innermost frame.
-/

namespace Leveret

variable {α β : Type} {own : Option String}

/-! ## Checking -/

namespace Checker

/-- What a check leaves behind of a state, where `own` is the name that is declared. -/
structure Restores (own : Option String) (s s' : State) : Prop where
  frames : s.scopes.Preserved own s'.scopes
  records : s.scopes.SameRecords s'.scopes
  loopDepth : s'.loopDepth = s.loopDepth

def Growing (own : Option String) (m : Checker α) : Prop :=
  ∀ s : State, s.scopes.Grows own (m.run s).2.scopes

section Growing

variable {m : Checker α} {f : α → Checker β}

theorem Growing.of_contained (hm : Contained m) : Growing own m := fun s => .inl (hm.restores s)

theorem Growing.behind (hm : Contained m) (hf : ∀ a, Growing own (f a)) :
    Growing own (m >>= f) := by
  intro s
  have h := hf (m.run s).1 (m.run s).2
  rw [hm.restores s] at h
  exact h

theorem Growing.last (hm : Growing own m) (b : β) : Growing own (do let _ ← m; return b) := hm

theorem declare_growing (node : Node) (name : String) (isConst : Bool) (ty : Option Ty) :
    Growing (some name) (declare node name isConst ty) := by
  unfold declare
  split
  on_goal 1 => refine .behind (annotate_contained _ _) fun _ => ?_
  all_goals
    intro s
    rw [run_get_bind]
    split
    · rename_i hd
      exact .declare hd
    · exact .refl
    · exact .refl

theorem initialized_growing (node : Node) (name : String) (isConst : Bool) (declared : Option Ty)
    (init : Expr) : Growing (some name) (do
      let received ← require init.position (← expr init)
      declare node name isConst (← initialType declared init.position received)
      return Synthesis.noValue) := by
  refine .behind (expr_contained init) fun _ => .behind (require_contained _ _) fun _ => ?_
  refine .behind (initialType_contained _ _ _) fun _ => ?_
  exact (declare_growing _ _ _ _).last _

theorem stmt_growing (t : Stmt) : Growing t.name? (stmt t) := by
  cases t with
  | declareVar node name declared init =>
    cases init with
    | none =>
      rw [stmt]
      exact (declare_growing _ _ _ _).last _
    | some init =>
      rw [stmt]
      exact initialized_growing _ _ _ _ _
  | declareConst node name declared init =>
    rw [stmt]
    exact initialized_growing _ _ _ _ _
  | _ => exact .of_contained (stmt_contained _ rfl)

end Growing

theorem Restores.of_grows {s s' : State} (h : s.scopes.Grows own s'.scopes)
    (hdepth : s'.loopDepth = s.loopDepth) : Restores own s s' :=
  ⟨h.preserved, h.sameRecords, hdepth⟩

end Checker

/-! ## All three -/

/-- However it ends, work on an expression or a block leaves the frames with the names they had, and
work on a statement adds at most the name that the statement declares, to the innermost frame.
Checking and lowering also leave the records of the names that were there, and the loops around. -/
theorem frames_restored (types : Annotations) (limit : Nat) :
    (∀ (e : Expr) (s : Checker.State), Checker.Restores none s ((Checker.expr e).run s).2) ∧
    (∀ (b : Block) (s : Checker.State), Checker.Restores none s ((Checker.block b).run s).2) ∧
    (∀ (t : Stmt) (s : Checker.State), Checker.Restores t.name? s ((Checker.stmt t).run s).2) ∧
    (∀ (e : Expr) (σ : Eval.State),
      σ.scopes.Preserved none (stateAfter (Eval.expr limit e) σ).scopes) ∧
    (∀ (b : Block) (σ : Eval.State),
      σ.scopes.Preserved none (stateAfter (Eval.block limit b) σ).scopes) ∧
    (∀ (t : Stmt) (σ : Eval.State),
      σ.scopes.Preserved t.name? (stateAfter (Eval.stmt limit t) σ).scopes) ∧
    (∀ (e : Expr) (s : Code.Lowering.State),
      Code.Lowering.Restores none s (stateAfter (Code.Lowering.expr types e) s)) ∧
    (∀ (b : Block) (s : Code.Lowering.State),
      Code.Lowering.Restores none s (stateAfter (Code.Lowering.block types b) s)) ∧
    (∀ (t : Stmt) (s : Code.Lowering.State),
      Code.Lowering.Restores t.name? s (stateAfter (Code.Lowering.stmt types t) s)) := by
  refine ⟨fun e s => ?_, fun b s => ?_, fun t s => ?_, fun e σ => ?_, fun b σ => ?_,
    fun t σ => ?_, fun e s => ?_, fun b s => ?_, fun t s => ?_⟩
  · have hscopes := (Checker.expr_contained e).restores s
    exact .of_grows (.inl hscopes) (Checker.expr_keeping e s).depth
  · have hscopes := (Checker.block_contained b).restores s
    exact .of_grows (.inl hscopes) (Checker.block_keeping b s).depth
  · exact .of_grows (Checker.stmt_growing t s) (Checker.stmt_keeping t s).depth
  · exact .of_bare (Eval.expr_restoring limit e σ).1
  · exact .of_bare (Eval.block_restoring limit b σ).1
  · exact .of_bare (Eval.stmt_restoring limit t σ).1
  · exact .of_restoring (Code.Lowering.expr_restoring types e) s
  · exact .of_restoring (Code.Lowering.block_restoring types b) s
  · exact .of_restoring (Code.Lowering.stmt_restoring types t) s

end Leveret
