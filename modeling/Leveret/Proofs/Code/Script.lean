import Leveret.Code.Lowering
import Leveret.Proofs.Steps

/-!
# Lowering, edit by edit

Lowering is written over anything that keeps the code so far and changes it by edits, and so it can
be read as a script: it then tells which edits it makes, in order, and its state is what they come
to and nothing else. Without the list of edits, the script of a tree is the lowering of that tree.
-/

namespace Leveret.Code

open Lowering

/-- The edit puts something into the block that is being filled. -/
def Edit.writes : Edit → Bool
  | emit _ | terminate _ => true
  | _ => false

/-- The state that some edits lead to. -/
def replay (s : State) (edits : List Edit) : State := edits.foldl Edit.apply s

theorem replay_append (s : State) (es es' : List Edit) :
    replay s (es ++ es') = replay (replay s es) es' := List.foldl_append

/-- From a state, the edits to make and what comes out in the end. -/
structure Script (α : Type) where
  run : State → List Edit × Except Diagnostic α

namespace Script

def andThen {α β : Type} (x : Script α) (f : α → Script β) (s : State) :
    List Edit × Except Diagnostic β :=
  match x.run s with
  | (edits, .ok a) => ((f a).run (replay s edits)).map (edits ++ ·) id
  | (edits, .error d) => (edits, .error d)

instance : Monad Script where
  pure a := ⟨fun _ => ([], .ok a)⟩
  bind x f := ⟨x.andThen f⟩

instance : LawfulMonad Script := by
  refine .mk' _ (fun x => ?_) (fun a f => rfl) (fun x f g => ?_)
  · change (⟨x.andThen fun a => pure a⟩ : Script _) = x
    refine congrArg mk (funext fun s => ?_)
    rw [andThen]
    rcases hrun : x.run s with ⟨edits, d | a⟩
    · rfl
    · exact Prod.ext (List.append_nil edits) rfl
  · refine congrArg mk (funext fun s => ?_)
    change andThen ⟨x.andThen f⟩ g s = x.andThen (fun a => ⟨(f a).andThen g⟩) s
    simp only [andThen]
    rcases x.run s with ⟨edits, d | a⟩
    · rfl
    · dsimp only
      rcases (f a).run (replay s edits) with ⟨more, d | b⟩
      · rfl
      · dsimp only [Prod.map]
        rw [← replay_append]
        exact Prod.ext (List.append_assoc ..) rfl

instance : MonadExceptOf Diagnostic Script where
  throw d := ⟨fun _ => ([], .error d)⟩
  tryCatch x handle := ⟨fun s =>
    match x.run s with
    | (edits, .ok a) => (edits, .ok a)
    | (edits, .error d) => ((handle d).run (replay s edits)).map (edits ++ ·) id⟩

instance : Editing Script where
  look f := ⟨fun s => ([], .ok (f s))⟩
  edit e := ⟨fun _ => ([e], .ok ())⟩
  ending x e := ⟨fun s => (x.run s).map (· ++ [e]) id⟩

/-! ## Scripts and lowering -/

def lowering {α : Type} (x : Script α) : Lowering α := fun s =>
  match x.run s with
  | (edits, .ok a) => .ok a (replay s edits)
  | (edits, .error d) => .error d (replay s edits)

variable {α β : Type}

theorem lowering_run_eq_ok {x : Script α} {s s' : State} {a : α} :
    x.lowering.run s = .ok a s' ↔ (x.run s).2 = .ok a ∧ s' = replay s (x.run s).1 := by
  unfold lowering EStateM.run
  dsimp only
  rcases x.run s with ⟨edits, d | b⟩
  · exact ⟨nofun, nofun⟩
  · constructor
    · rintro ⟨⟩
      exact ⟨rfl, rfl⟩
    · rintro ⟨⟨⟩, rfl⟩
      rfl

theorem lowering_bind (x : Script α) (f : α → Script β) :
    (x >>= f).lowering = x.lowering >>= fun a => (f a).lowering := by
  funext s
  have hbind : (x >>= f).run s = x.andThen f s := rfl
  change _ = EStateM.bind x.lowering (fun a => (f a).lowering) s
  unfold lowering EStateM.bind
  rw [hbind, andThen]
  dsimp only
  rcases x.run s with ⟨edits, d | a⟩
  · rfl
  · dsimp only
    rcases (f a).run (replay s edits) with ⟨more, d | b⟩
    · exact congrArg (EStateM.Result.error d) (replay_append s edits more)
    · exact congrArg (EStateM.Result.ok b) (replay_append s edits more)

theorem lowering_ending (x : Script α) (e : Edit) :
    (ending x e).lowering = ending x.lowering e := by
  funext s
  refine Eq.trans ?_ (run_tryFinally x.lowering (Edit.apply · e) s).symm
  have hending : (ending x e).run s = (x.run s).map (· ++ [e]) id := rfl
  unfold lowering EStateM.run
  dsimp only
  rw [hending]
  rcases x.run s with ⟨edits, d | a⟩
  · exact congrArg (EStateM.Result.error d) (replay_append s edits [e])
  · exact congrArg (EStateM.Result.ok a) (replay_append s edits [e])

theorem lowering_pure (a : α) : (pure a : Script α).lowering = pure a := rfl

theorem lowering_look (f : State → α) : (look f : Script α).lowering = look f := rfl

theorem lowering_edit (e : Edit) : (edit e : Script Unit).lowering = edit e := rfl

theorem lowering_discard (x : Script α) : (discard x).lowering = discard x.lowering := by
  change (x >>= fun _ => pure ()).lowering = _
  rw [lowering_bind]
  rfl

theorem lowering_liftScope (position : Position) (x : Except ScopeError α) :
    (liftScope position x : Script α).lowering = liftScope position x := by
  cases x <;> rfl

theorem lowering_typeOf (types : Annotations) (id : Nat) (position : Position) :
    (typeOf types id position : Script Ty).lowering = typeOf types id position := by
  unfold typeOf
  cases types[id]? <;> rfl

theorem lowering_require (position : Position) (o : Option Operand) :
    (require position o : Script Operand).lowering = require position o := by
  cases o <;> rfl

theorem lowering_createBlock (name : String) :
    (createBlock name : Script Nat).lowering = createBlock name := rfl

theorem lowering_freshRegister : (freshRegister : Script Nat).lowering = freshRegister := rfl

theorem lowering_allocateSlot (name : String) (ty : Ty) :
    (allocateSlot name ty : Script Nat).lowering = allocateSlot name ty := rfl

theorem lowering_inFrame (x : Script α) : (inFrame x).lowering = inFrame x.lowering := by
  simp only [inFrame, lowering_bind, lowering_edit, lowering_ending]

theorem lowering_inLoop (targets : LoopTargets) (x : Script α) :
    (inLoop targets x).lowering = inLoop targets x.lowering := by
  simp only [inLoop, lowering_bind, lowering_edit, lowering_ending]

theorem lowering_resolve (position : Position) (name : String) :
    (resolve position name : Script (Nat × Ty)).lowering = resolve position name := by
  simp only [resolve, lowering_bind, lowering_look, lowering_liftScope, lowering_pure]

theorem lowering_unary (op : UnaryOp) (ty : Ty) (operand : Operand) :
    (unary op ty operand : Script Operand).lowering = unary op ty operand := by
  cases op <;> rfl

theorem lowering_binary (position : Position) (op : BinaryOp) (ty : Ty) (left right : Operand) :
    (binary position op ty left right : Script Operand).lowering =
      binary position op ty left right := by
  simp only [binary, lowering_bind, lowering_freshRegister]
  refine bind_congr fun dest => ?_
  cases binaryInstruction? op ty dest left right <;> rfl

theorem lowering_load (position : Position) (name : String) :
    (load position name : Script Operand).lowering = load position name := by
  simp only [load, lowering_bind, lowering_resolve, lowering_freshRegister, lowering_edit,
    lowering_pure]

theorem lowering_declare (position : Position) (name : String) (ty : Ty) (value : Operand) :
    (declare position name ty value : Script Unit).lowering = declare position name ty value := by
  simp only [declare, lowering_bind, lowering_allocateSlot, lowering_edit, lowering_look,
    lowering_liftScope]

theorem lowering_assign (position : Position) (name : String) (value : Operand) :
    (assign position name value : Script Unit).lowering = assign position name value := by
  simp only [assign, lowering_bind, lowering_resolve, lowering_edit]

theorem lowering_fill (block next : Nat) (x : Script α) :
    (fill block next x).lowering = fill block next x.lowering := by
  simp only [fill, lowering_bind, lowering_edit]

theorem lowering_ifElse (condition : Operand) (x y : Script Unit) :
    (ifElse condition x y).lowering = ifElse condition x.lowering y.lowering := by
  simp only [ifElse, lowering_bind, lowering_createBlock, lowering_edit, lowering_fill]

theorem lowering_whileLoop (x : Script Operand) (y : Script Unit) :
    (whileLoop x y).lowering = whileLoop x.lowering y.lowering := by
  simp only [whileLoop, lowering_bind, lowering_createBlock, lowering_edit, lowering_fill,
    lowering_inLoop]

theorem lowering_jump (position : Position) (target : LoopTargets → Nat) :
    (jump position target : Script Unit).lowering = jump position target := by
  simp only [jump, lowering_bind, lowering_look]
  refine bind_congr fun loops => ?_
  cases loops <;> rfl

mutual

theorem lowering_expr (types : Annotations) :
    (e : Expr) → (expr types e : Script (Option Operand)).lowering = expr types e
  | .literal _ _ => by
    rw [expr, expr, lowering_pure]
  | .unary node op operand => by
    rw [expr, expr]
    simp only [lowering_bind, lowering_typeOf, lowering_require, lowering_unary, lowering_pure,
      lowering_expr types operand]
  | .binary node op left right => by
    rw [expr, expr]
    simp only [lowering_bind, lowering_typeOf, lowering_require, lowering_binary, lowering_pure,
      lowering_expr types left, lowering_expr types right]
  | .load node name => by
    rw [expr, expr]
    simp only [lowering_bind, lowering_load, lowering_pure]
  | .compound _ body => by
    rw [expr, expr, lowering_block types body]

theorem lowering_block (types : Annotations) :
    (b : Block) → (block types b : Script (Option Operand)).lowering = block types b
  | ⟨_, statements⟩ => by
    rw [block, block, lowering_inFrame, lowering_stmts types none statements]

theorem lowering_stmt (types : Annotations) :
    (s : Stmt) → (stmt types s : Script (Option Operand)).lowering = stmt types s
  | .declareVar node name _ none => by
    rw [stmt, stmt]
    simp only [lowering_bind, lowering_typeOf, lowering_declare, lowering_pure]
  | .declareVar node name _ (some init) | .declareConst node name _ init => by
    rw [stmt, stmt]
    simp only [lowering_bind, lowering_typeOf, lowering_require, lowering_declare, lowering_pure,
      lowering_expr types init]
  | .assign node name value => by
    rw [stmt, stmt]
    simp only [lowering_bind, lowering_require, lowering_assign, lowering_pure,
      lowering_expr types value]
  | .print _ value => by
    rw [stmt, stmt]
    simp only [lowering_bind, lowering_typeOf, lowering_require, lowering_edit, lowering_pure,
      lowering_expr types value]
  | .ifElse _ test consequence none => by
    rw [stmt, stmt]
    simp only [lowering_bind, lowering_require, lowering_ifElse, lowering_discard, lowering_pure,
      lowering_expr types test, lowering_block types consequence]
  | .ifElse _ test consequence (some alternative) => by
    rw [stmt, stmt]
    simp only [lowering_bind, lowering_require, lowering_ifElse, lowering_discard, lowering_pure,
      lowering_expr types test, lowering_block types consequence, lowering_block types alternative]
  | .whileLoop _ test body => by
    rw [stmt, stmt]
    simp only [lowering_bind, lowering_require, lowering_whileLoop, lowering_discard, lowering_pure,
      lowering_expr types test, lowering_block types body]
  | .breakLoop node | .continueLoop node => by
    rw [stmt, stmt]
    simp only [lowering_bind, lowering_jump, lowering_pure]
  | .expr _ value => by
    rw [stmt, stmt, lowering_expr types value]

theorem lowering_stmts (types : Annotations) (last : Option Operand) :
    (list : List Stmt) →
      (stmts types last list : Script (Option Operand)).lowering = stmts types last list
  | [] => by
    rw [stmts, stmts, lowering_pure]
  | s :: rest => by
    rw [stmts, stmts, lowering_bind, lowering_stmt types s]
    exact bind_congr fun last => lowering_stmts types last rest

end

abbrev program (types : Annotations) (statements : List Stmt) : Script Unit :=
  Lowering.program types statements

/-- The edits of a program are all that its lowering does. -/
theorem lowering_program (types : Annotations) (statements : List Stmt) :
    (program types statements).lowering = Lowering.program types statements := by
  simp only [program, Lowering.program, lowering_bind, lowering_stmts, lowering_edit]

end Script

end Leveret.Code
