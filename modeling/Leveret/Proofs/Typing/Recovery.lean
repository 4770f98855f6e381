import Leveret.Proofs.Typing.Exactness

/-!
# Recovery from faults

What a step of the checker finds is decided by the scopes and the loop depth it starts with, and it
reports behind what was reported before. A statement that declares nothing leaves both as they
were, whatever is wrong with it. So it neither hides nor makes a fault of another statement.
-/

namespace Leveret

def Stmt.isDeclaration : Stmt → Bool
  | .declareVar .. | .declareConst .. => true
  | _ => false

namespace Checker

/-! ## What a step depends on and what it leaves -/

/-- The two states differ in annotations and faults at most. -/
structure Level (s t : State) : Prop where
  scopes : s.scopes = t.scopes
  depth : s.loopDepth = t.loopDepth

/-- From states on one level the step comes to one result and one level, with the same new
faults. -/
def Local {α : Type} (m : Checker α) : Prop :=
  ∀ s t, Level s t → (m.run s).1 = (m.run t).1 ∧ Level (m.run s).2 (m.run t).2 ∧
    ∃ new, (m.run s).2.errors = s.errors ++ new ∧ (m.run t).2.errors = t.errors ++ new

/-- A local step that ends with the scopes it started with. -/
structure Contained {α : Type} (m : Checker α) : Prop where
  isLocal : Local m
  restores : ∀ s, (m.run s).2.scopes = s.scopes

section Contained

variable {α β : Type} {m : Checker α} {f : α → Checker β}

theorem Local.bind (hm : Local m) (hf : ∀ a, Local (f a)) : Local (m >>= f) := by
  intro s t h
  obtain ⟨hresult, hlevel, new, hs, ht⟩ := hm s t h
  obtain ⟨hresult', hlevel', new', hs', ht'⟩ := hf (m.run s).1 _ _ hlevel
  have hrun : (m >>= f).run t = (f (m.run s).1).run (m.run t).2 := by
    rw [hresult]
    rfl
  rw [hrun]
  refine ⟨hresult', hlevel', new ++ new', ?_, ?_⟩
  · exact hs'.trans (by rw [hs, List.append_assoc])
  · exact ht'.trans (by rw [ht, List.append_assoc])

theorem Contained.pure (a : α) : Contained (pure a : Checker α) where
  isLocal _ _ h := ⟨rfl, h, [], (List.append_nil _).symm, (List.append_nil _).symm⟩
  restores _ := rfl

theorem Contained.bind (hm : Contained m) (hf : ∀ a, Contained (f a)) : Contained (m >>= f) where
  isLocal := hm.isLocal.bind fun a => (hf a).isLocal
  restores s := ((hf _).restores _).trans (hm.restores s)

theorem Contained.look {f : State → Checker β} (hsame : ∀ s t, Level s t → f s = f t)
    (hf : ∀ s, Contained (f s)) : Contained (get >>= f) where
  isLocal s t h := by
    rw [run_get_bind, run_get_bind, ← hsame s t h]
    exact (hf s).isLocal s t h
  restores s := (hf s).restores s

theorem report_contained (cause : Cause) (position : Position) :
    Contained (report cause position) where
  isLocal _ _ h := ⟨rfl, ⟨h.scopes, h.depth⟩, [⟨cause, position⟩], rfl, rfl⟩
  restores _ := rfl

theorem annotate_contained (id : Nat) (ty : Ty) : Contained (annotate id ty) where
  isLocal _ _ h :=
    ⟨rfl, ⟨h.scopes, h.depth⟩, [], (List.append_nil _).symm, (List.append_nil _).symm⟩
  restores _ := rfl

theorem conclude_contained (node : Node) (synthesis : Synthesis) :
    Contained (conclude node synthesis) := by
  cases synthesis with
  | typed ty => exact .bind (annotate_contained _ _) fun _ => .pure _
  | noValue | poisoned => exact .pure _

theorem require_contained (position : Position) (synthesis : Synthesis) :
    Contained (require position synthesis) := by
  cases synthesis with
  | typed ty | poisoned => exact .pure _
  | noValue => exact .bind (report_contained _ _) fun _ => .pure _

theorem unary_contained (node : Node) (op : UnaryOp) (operand : Option Ty) :
    Contained (unary node op operand) := by
  unfold unary
  split
  · exact .pure _
  · split
    · exact conclude_contained _ _
    · exact .bind (report_contained _ _) fun _ => .pure _

theorem binary_contained (node : Node) (op : BinaryOp) (left right : Option Ty) :
    Contained (binary node op left right) := by
  unfold binary
  split
  · split
    · exact conclude_contained _ _
    · exact .bind (report_contained _ _) fun _ => .pure _
  · exact .pure _

theorem load_contained (node : Node) (name : String) : Contained (load node name) := by
  unfold load
  refine .look (fun s t h => by rw [h.scopes]) fun s => ?_
  split
  · exact conclude_contained _ _
  · exact .pure _
  · exact .bind (report_contained _ _) fun _ => .pure _

theorem initialType_contained (declared : Option Ty) (position : Position)
    (received : Option Ty) : Contained (initialType declared position received) := by
  unfold initialType
  split
  · split
    · exact .bind (report_contained _ _) fun _ => .pure _
    · exact .pure _
  · exact .pure _
  · exact .pure _

theorem assign_contained (node : Node) (name : String) (position : Position)
    (received : Option Ty) : Contained (assign node name position received) := by
  unfold assign
  refine .look (fun s t h => by rw [h.scopes]) fun s => ?_
  split
  · exact report_contained _ _
  · exact report_contained _ _
  · split
    · split
      · exact report_contained _ _
      · exact .pure _
    · exact .pure _

theorem condition_contained (construct : String) (position : Position) (received : Option Ty) :
    Contained (condition construct position received) := by
  unfold condition
  split
  · split
    · exact report_contained _ _
    · exact .pure _
  · exact .pure _

theorem loopControl_contained (node : Node) (keyword : String) :
    Contained (loopControl node keyword) := by
  unfold loopControl
  refine .look (fun s t h => by rw [h.depth]) fun s => ?_
  split
  · exact report_contained _ _
  · exact .pure _

theorem Contained.value {e : Expr} (h : Contained (expr e)) : Contained (value e) :=
  .bind h fun _ => require_contained _ _

theorem Contained.test {construct : String} {e : Expr} (h : Contained (expr e)) :
    Contained (test construct e) :=
  .bind h.value fun _ => condition_contained _ _ _

theorem declare_local (node : Node) (name : String) (isConst : Bool) (ty : Option Ty) :
    Local (declare node name isConst ty) := by
  unfold declare
  split
  on_goal 1 => refine (annotate_contained _ _).isLocal.bind fun _ => ?_
  -- the state that is looked at is also the one that is set, so `Contained.look` does not apply
  all_goals
    intro s t h
    rw [run_get_bind, run_get_bind, ← h.scopes]
    split
    · exact ⟨rfl, ⟨rfl, h.depth⟩, [], (List.append_nil _).symm, (List.append_nil _).symm⟩
    · exact (report_contained _ _).isLocal s t h
    · exact (Contained.pure _).isLocal s t h

theorem introduce_local (node : Node) (name : String) (isConst : Bool) (declared : Option Ty)
    {init : Expr} (h : Contained (expr init)) :
    Local (introduce node name isConst declared init) :=
  .bind h.value.isLocal fun _ =>
    .bind (initialType_contained _ _ _).isLocal fun _ => declare_local _ _ _ _

theorem inFrame_contained {ids : List Nat} (hm : Local m) (hk : Keeping ids m) :
    Contained (inFrame m) where
  isLocal s t h := by
    have hpush : Level { s with scopes := s.scopes.push } { t with scopes := t.scopes.push } :=
      ⟨congrArg Chain.push h.scopes, h.depth⟩
    obtain ⟨hresult, hlevel, hnew⟩ := hm _ _ hpush
    exact ⟨hresult, ⟨congrArg Chain.pop hlevel.scopes, hlevel.depth⟩, hnew⟩
  restores s := (hk { s with scopes := s.scopes.push }).outer

theorem atLoopDepth_contained {change : Nat → Nat} (hm : Contained m) :
    Contained (atLoopDepth change m) where
  isLocal s t h := by
    have hchange : Level { s with loopDepth := change s.loopDepth }
        { t with loopDepth := change t.loopDepth } := ⟨h.scopes, congrArg change h.depth⟩
    obtain ⟨hresult, hlevel, hnew⟩ := hm.isLocal _ _ hchange
    exact ⟨hresult, ⟨hlevel.scopes, h.depth⟩, hnew⟩
  restores s := hm.restores { s with loopDepth := change s.loopDepth }

end Contained

/-! ## The whole tree -/

mutual

theorem expr_contained : (e : Expr) → Contained (expr e)
  | .literal node value => by
    rw [expr]
    exact conclude_contained _ _
  | .unary node op operand => by
    rw [expr_unary]
    exact .bind (expr_contained operand).value fun _ => unary_contained _ _ _
  | .binary node op left right => by
    rw [expr_binary]
    refine .bind (expr_contained left).value fun _ => ?_
    exact .bind (expr_contained right).value fun _ => binary_contained _ _ _ _
  | .load node name => by
    rw [expr]
    exact load_contained _ _
  | .compound node body => by
    rw [expr]
    exact .bind (atLoopDepth_contained (block_contained body)) fun _ => conclude_contained _ _

theorem block_contained : (b : Block) → Contained (block b)
  | ⟨_, statements⟩ => by
    rw [block]
    exact inFrame_contained (stmts_local .noValue statements) (stmts_keeping .noValue statements)

theorem stmt_contained : (t : Stmt) → t.isDeclaration = false → Contained (stmt t)
  | .assign node name value, _ => by
    rw [stmt_assign]
    refine .bind (expr_contained value).value fun _ => ?_
    exact .bind (assign_contained _ _ _ _) fun _ => .pure _
  | .print node value, _ => by
    rw [stmt_print]
    exact .bind (expr_contained value).value fun _ => .pure _
  | .ifElse node test consequence none, _ => by
    rw [stmt_ifOnly]
    refine .bind (expr_contained test).test fun _ => ?_
    exact .bind (block_contained consequence) fun _ => .pure _
  | .ifElse node test consequence (some alternative), _ => by
    rw [stmt_ifElse]
    refine .bind (expr_contained test).test fun _ => ?_
    refine .bind (block_contained consequence) fun _ => ?_
    exact .bind (block_contained alternative) fun _ => .pure _
  | .whileLoop node test body, _ => by
    rw [stmt_whileLoop, (block_keeping body).inLoop_eq]
    refine .bind (expr_contained test).test fun _ => ?_
    exact .bind (atLoopDepth_contained (block_contained body)) fun _ => .pure _
  | .breakLoop node, _ | .continueLoop node, _ => by
    rw [stmt]
    exact .bind (loopControl_contained _ _) fun _ => .pure _
  | .expr node value, _ => by
    rw [stmt]
    exact expr_contained value

theorem stmt_local : (t : Stmt) → Local (stmt t)
  | .declareVar node name declared none => by
    rw [stmt]
    exact .bind (declare_local _ _ _ _) fun _ => (Contained.pure _).isLocal
  | .declareVar node name declared (some init) => by
    rw [stmt_declareVar]
    exact .bind (introduce_local _ _ _ _ (expr_contained init)) fun _ => (Contained.pure _).isLocal
  | .declareConst node name declared init => by
    rw [stmt_declareConst]
    exact .bind (introduce_local _ _ _ _ (expr_contained init)) fun _ => (Contained.pure _).isLocal
  | .assign node name value => (stmt_contained (.assign node name value) rfl).isLocal
  | .print node value => (stmt_contained (.print node value) rfl).isLocal
  | .ifElse node test b b' => (stmt_contained (.ifElse node test b b') rfl).isLocal
  | .whileLoop node test body => (stmt_contained (.whileLoop node test body) rfl).isLocal
  | .breakLoop node => (stmt_contained (.breakLoop node) rfl).isLocal
  | .continueLoop node => (stmt_contained (.continueLoop node) rfl).isLocal
  | .expr node value => (stmt_contained (.expr node value) rfl).isLocal

theorem stmts_local (last : Synthesis) : (list : List Stmt) → Local (stmts last list)
  | [] => by
    rw [stmts]
    exact (Contained.pure _).isLocal
  | t :: rest => by
    rw [stmts]
    exact .bind (stmt_local t) fun _ => stmts_local _ rest

end

theorem value_contained (e : Expr) : Contained (value e) := (expr_contained e).value

theorem test_contained (construct : String) (e : Expr) : Contained (test construct e) :=
  (expr_contained e).test

/-! ## Statements in a row -/

theorem stmts_append (last : Synthesis) (list list' : List Stmt) :
    stmts last (list ++ list') = stmts last list >>= fun a => stmts a list' := by
  induction list generalizing last with
  | nil =>
    rw [List.nil_append, stmts]
    exact (pure_bind last fun a => stmts a list').symm
  | cons t rest ih =>
    rw [List.cons_append, stmts, stmts, bind_assoc]
    exact congrArg _ (funext fun a => ih a)

theorem stmts_state (last last' : Synthesis) (list : List Stmt) (s : State) :
    ((stmts last list).run s).2 = ((stmts last' list).run s).2 := by
  cases list with
  | nil =>
    rw [stmts, stmts]
    rfl
  | cons t rest => rw [stmts, stmts]

def after (list : List Stmt) (s : State) : State := ((stmts .noValue list).run s).2

theorem after_append (list list' : List Stmt) (s : State) :
    after (list ++ list') s = after list' (after list s) := by
  unfold after
  rw [stmts_append]
  exact stmts_state _ _ list' _

theorem after_local (list : List Stmt) {s t : State} (h : Level s t) :
    ∃ new, (after list s).errors = s.errors ++ new ∧ (after list t).errors = t.errors ++ new :=
  (stmts_local .noValue list s t h).2.2

theorem level_after {t : Stmt} (ht : t.isDeclaration = false) (s : State) :
    Level s (after [t] s) := by
  have hone : after [t] s = ((stmt t).run s).2 := by
    unfold after
    rw [stmts]
    simp only [stmts]
    rfl
  rw [hone]
  exact ⟨((stmt_contained t ht).restores s).symm, (stmt_keeping t s).depth.symm⟩

end Checker

open Checker

/-- The faults of a statement that declares nothing stand between those of the statements before it
and those of the statements behind it, and these are what they are without it. -/
theorem Program.check_errors_append (before behind : List Stmt) {t : Stmt}
    (ht : t.isDeclaration = false) (span : Span) :
    ∃ own others,
      (Program.mk (before ++ [t]) span).check.errors =
        (Program.mk before span).check.errors ++ own ∧
      (Program.mk (before ++ behind) span).check.errors =
        (Program.mk before span).check.errors ++ others ∧
      (Program.mk (before ++ [t] ++ behind) span).check.errors =
        (Program.mk before span).check.errors ++ own ++ others := by
  have hcheck (list : List Stmt) :
      (Program.mk list span).check.errors = (after list .initial).errors := rfl
  simp only [hcheck, after_append]
  have hlevel := level_after ht (after before .initial)
  obtain ⟨own, hown, -⟩ := after_local [t] ⟨rfl, rfl⟩
  obtain ⟨others, hothers, hothers'⟩ := after_local behind hlevel
  exact ⟨own, others, hown, hothers, by rw [hothers', hown]⟩

def faulty : String := "var x = 1; { var x = y; break; true + 1; }; x = 2.5;"

theorem exists_check_errors_append :
    ∃ before t behind span own others,
      Program.ofSource faulty "faulty" = .ok ⟨before ++ [t] ++ behind, span⟩ ∧
      t.isDeclaration = false ∧ (Program.mk before span).check.errors = [] ∧
      (Program.mk (before ++ [t]) span).check.errors = own ∧
      (Program.mk (before ++ behind) span).check.errors = others ∧
      (Program.mk (before ++ [t] ++ behind) span).check.errors = own ++ others ∧
      own.map (·.cause) = [.undefinedName "y", .loopControlOutsideLoop "break",
        .binOpMismatch "bool" "+" "int"] ∧
      others.map (·.cause) = [.assignTypeMismatch "x" "int" "float"] := by
  have hparse : (Program.ofSource faulty "faulty").toOption.map (fun p =>
      (p.statements.map (·.isDeclaration),
        (Program.mk (p.statements.take 1) p.span).check.errors,
        (Program.mk (p.statements.take 2) p.span).check.errors.map (·.cause),
        (Program.mk (p.statements.take 1 ++ p.statements.drop 2) p.span).check.errors.map
          (·.cause))) =
      some ([true, false, false], [], [.undefinedName "y", .loopControlOutsideLoop "break",
        .binOpMismatch "bool" "+" "int"], [.assignTypeMismatch "x" "int" "float"]) := by
    decide +kernel
  obtain ⟨⟨statements, span⟩, hp, hfacts⟩ := Option.map_eq_some_iff.1 hparse
  simp only [Prod.mk.injEq] at hfacts
  obtain ⟨hkinds, hfirst, hown, hothers⟩ := hfacts
  simp only [List.map_eq_cons_iff, List.map_eq_nil_iff] at hkinds
  obtain ⟨a, _, rfl, -, b, _, rfl, hb, c, _, rfl, -, rfl⟩ := hkinds
  obtain ⟨own, others, h₁, h₂, h₃⟩ := Program.check_errors_append [a] [c] hb span
  have hfirst : (Program.mk [a] span).check.errors = [] := hfirst
  rw [hfirst, List.nil_append] at h₁ h₂ h₃
  refine ⟨[a], b, [c], span, own, others, toOption_eq_some.1 hp, hb, hfirst, h₁, h₂, h₃, ?_, ?_⟩
  · rw [← h₁]
    exact hown
  · rw [← h₂]
    exact hothers

end Leveret
