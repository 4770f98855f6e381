import Leveret.Tree.Postorder
import Leveret.Tree.Printer
import Leveret.Tree.Sameness

/-!
# The outline of a tree

A tree without the numbers and spans of its nodes. It decides how the tree is printed, and trees
with one outline are the same.
-/

namespace Leveret

mutual

def Expr.outline : Expr → Expr
  | .literal _ value => .literal default value
  | .unary _ op operand => .unary default op operand.outline
  | .binary _ op left right => .binary default op left.outline right.outline
  | .load _ name => .load default name
  | .compound _ body => .compound default body.outline

def Block.outline : Block → Block
  | ⟨_, statements⟩ => ⟨default, outlineAll statements⟩

def Stmt.outline : Stmt → Stmt
  | .declareVar _ name ty init => .declareVar default name ty (outlineInit init)
  | .declareConst _ name ty init => .declareConst default name ty init.outline
  | .assign _ name value => .assign default name value.outline
  | .print _ value => .print default value.outline
  | .ifElse _ condition consequence alternative =>
    .ifElse default condition.outline consequence.outline (outlineElse alternative)
  | .whileLoop _ condition body => .whileLoop default condition.outline body.outline
  | .breakLoop _ => .breakLoop default
  | .continueLoop _ => .continueLoop default
  | .expr _ value => .expr default value.outline

def outlineInit : Option Expr → Option Expr
  | none => none
  | some init => some init.outline

def outlineElse : Option Block → Option Block
  | none => none
  | some alternative => some alternative.outline

def outlineAll : List Stmt → List Stmt
  | [] => []
  | s :: rest => s.outline :: outlineAll rest

end

def Program.outline (p : Program) : List Stmt := outlineAll p.statements

theorem outlineInit_eq_map (init : Option Expr) : outlineInit init = init.map Expr.outline := by
  cases init <;> rw [outlineInit] <;> rfl

theorem outlineElse_eq_map (alternative : Option Block) :
    outlineElse alternative = alternative.map Block.outline := by
  cases alternative <;> rw [outlineElse] <;> rfl

/-! ## Printing -/

theorem Expr.wraps_outline (e : Expr) (loose : Nat → Bool) :
    e.outline.wraps loose = e.wraps loose := by
  cases e <;> rw [outline] <;> rfl

mutual

theorem Expr.text_outline (depth : Nat) : (e : Expr) → e.outline.text depth = e.text depth
  | .literal _ _ | .load _ _ => rfl
  | .unary _ op operand => by
    rw [Expr.outline, Expr.text, Expr.text, operand.text_outline, operand.wraps_outline]
  | .binary _ op left right => by
    rw [Expr.outline, Expr.text, Expr.text, left.text_outline, right.text_outline,
      left.wraps_outline, right.wraps_outline]
  | .compound _ body => by rw [Expr.outline, Expr.text, Expr.text, body.text_outline]

theorem Block.text_outline (depth : Nat) : (b : Block) → b.outline.text depth = b.text depth
  | ⟨_, statements⟩ => by rw [Block.outline, Block.text, Block.text, textAll_outline]

theorem Stmt.text_outline (depth : Nat) : (s : Stmt) → s.outline.text depth = s.text depth
  | .declareVar _ _ _ none | .breakLoop _ | .continueLoop _ => rfl
  | .declareVar _ _ _ (some init) => by
    rw [Stmt.outline, outlineInit, Stmt.text, Stmt.text, init.text_outline]
  | .declareConst _ _ _ init => by rw [Stmt.outline, Stmt.text, Stmt.text, init.text_outline]
  | .assign _ _ value | .print _ value | .expr _ value => by
    rw [Stmt.outline, Stmt.text, Stmt.text, value.text_outline]
  | .ifElse _ condition consequence none => by
    rw [Stmt.outline, outlineElse, Stmt.text, Stmt.text, condition.text_outline, consequence.text_outline]
  | .ifElse _ condition consequence (some alternative) => by
    rw [Stmt.outline, outlineElse, Stmt.text, Stmt.text, condition.text_outline,
      consequence.text_outline, alternative.text_outline]
  | .whileLoop _ condition body => by
    rw [Stmt.outline, Stmt.text, Stmt.text, condition.text_outline, body.text_outline]

theorem textAll_outline (depth : Nat) : (list : List Stmt) →
    textAll depth (outlineAll list) = textAll depth list
  | [] => rfl
  | s :: rest => by rw [outlineAll, textAll, textAll, s.text_outline, textAll_outline depth rest]

end

theorem Program.text_of_outline {p q : Program} (h : p.outline = q.outline) : p.text = q.text := by
  unfold Program.text
  rw [← textAll_outline, ← textAll_outline 0 q.statements]
  exact congrArg (textAll 0) h

/-! ## Sameness -/

/-- A node whose constant, if it has one, is the same as itself: it is no NaN. -/
def Part.Steady : Part → Prop
  | .expr (.literal _ value) => value.same value = true
  | _ => True

mutual

theorem Expr.same_of_outline : (e e' : Expr) → (∀ part ∈ e.parts, part.Steady) →
    e.outline = e'.outline → e.same e' = true
  | .literal node value, e', h, ho => by
    have hvalue : value.same value = true :=
      h (.expr (.literal node value)) (by simp [Expr.parts])
    cases e' <;> cases ho
    rw [Expr.same]
    exact hvalue
  | .unary _ op operand, e', h, ho => by
    rw [Expr.parts] at h
    cases e' <;> simp only [Expr.outline, reduceCtorEq, Expr.unary.injEq] at ho
    obtain ⟨-, rfl, ho⟩ := ho
    have hoperand := operand.same_of_outline _ (List.forall_mem_append.1 h).1 ho
    rw [Expr.same, hoperand, beq_self_eq_true, Bool.true_and]
  | .binary _ op left right, e', h, ho => by
    rw [Expr.parts] at h
    obtain ⟨hleft, hright⟩ := List.forall_mem_append.1 (List.forall_mem_append.1 h).1
    cases e' <;> simp only [Expr.outline, reduceCtorEq, Expr.binary.injEq] at ho
    obtain ⟨-, rfl, hl, hr⟩ := ho
    rw [Expr.same, left.same_of_outline _ hleft hl, right.same_of_outline _ hright hr,
      beq_self_eq_true]
    rfl
  | .load _ name, e', h, ho => by
    cases e' <;> cases ho
    rw [Expr.same, beq_self_eq_true]
  | .compound _ body, e', h, ho => by
    rw [Expr.parts] at h
    cases e' <;> simp only [Expr.outline, reduceCtorEq, Expr.compound.injEq] at ho
    rw [Expr.same]
    exact body.same_of_outline _ (List.forall_mem_append.1 h).1 ho.2

theorem Block.same_of_outline : (b b' : Block) → (∀ part ∈ b.parts, part.Steady) →
    b.outline = b'.outline → b.same b' = true
  | ⟨_, list⟩, ⟨_, list'⟩, h, ho => by
    rw [Block.parts] at h
    rw [Block.outline, Block.outline, Block.mk.injEq] at ho
    rw [Block.same]
    exact sameAll_of_outline list list' h ho.2

theorem Stmt.same_of_outline : (s s' : Stmt) → (∀ part ∈ s.parts, part.Steady) →
    s.outline = s'.outline → s.same s' = true
  | .declareVar _ name ty none, s', h, ho => by
    cases s' <;> simp only [Stmt.outline, outlineInit_eq_map, reduceCtorEq,
      Stmt.declareVar.injEq] at ho
    obtain ⟨-, rfl, rfl, ho⟩ := ho
    rw [Option.map_eq_none_iff.1 ho.symm, Stmt.same, beq_self_eq_true, beq_self_eq_true]
    rfl
  | .declareVar _ name ty (some init), s', h, ho => by
    rw [Stmt.parts] at h
    cases s' <;> simp only [Stmt.outline, outlineInit_eq_map, reduceCtorEq,
      Stmt.declareVar.injEq] at ho
    obtain ⟨-, rfl, rfl, ho⟩ := ho
    obtain ⟨init', rfl, hinit⟩ := Option.map_eq_some_iff.1 ho.symm
    rw [Stmt.same, init.same_of_outline _ (List.forall_mem_append.1 h).1 hinit.symm,
      beq_self_eq_true, beq_self_eq_true]
    rfl
  | .declareConst _ name ty init, s', h, ho => by
    rw [Stmt.parts] at h
    cases s' <;> simp only [Stmt.outline, reduceCtorEq, Stmt.declareConst.injEq] at ho
    obtain ⟨-, rfl, rfl, ho⟩ := ho
    rw [Stmt.same, init.same_of_outline _ (List.forall_mem_append.1 h).1 ho,
      beq_self_eq_true, beq_self_eq_true]
    rfl
  | .assign _ name value, s', h, ho => by
    rw [Stmt.parts] at h
    cases s' <;> simp only [Stmt.outline, reduceCtorEq, Stmt.assign.injEq] at ho
    obtain ⟨-, rfl, ho⟩ := ho
    rw [Stmt.same, value.same_of_outline _ (List.forall_mem_append.1 h).1 ho, beq_self_eq_true]
    rfl
  | .print _ value, s', h, ho => by
    rw [Stmt.parts] at h
    cases s' <;> simp only [Stmt.outline, reduceCtorEq, Stmt.print.injEq] at ho
    rw [Stmt.same]
    exact value.same_of_outline _ (List.forall_mem_append.1 h).1 ho.2
  | .ifElse _ condition consequence none, s', h, ho => by
    rw [Stmt.parts] at h
    obtain ⟨hcondition, hconsequence⟩ := List.forall_mem_append.1 (List.forall_mem_append.1 h).1
    cases s' <;> simp only [Stmt.outline, outlineElse_eq_map, reduceCtorEq,
      Stmt.ifElse.injEq] at ho
    obtain ⟨-, hc, hb, ho⟩ := ho
    rw [Option.map_eq_none_iff.1 ho.symm, Stmt.same, condition.same_of_outline _ hcondition hc,
      consequence.same_of_outline _ hconsequence hb]
    rfl
  | .ifElse _ condition consequence (some alternative), s', h, ho => by
    rw [Stmt.parts] at h
    obtain ⟨hblocks, halternative⟩ := List.forall_mem_append.1 (List.forall_mem_append.1 h).1
    obtain ⟨hcondition, hconsequence⟩ := List.forall_mem_append.1 hblocks
    cases s' <;> simp only [Stmt.outline, outlineElse_eq_map, reduceCtorEq,
      Stmt.ifElse.injEq] at ho
    obtain ⟨-, hc, hb, ho⟩ := ho
    obtain ⟨alternative', rfl, hb'⟩ := Option.map_eq_some_iff.1 ho.symm
    rw [Stmt.same, condition.same_of_outline _ hcondition hc,
      consequence.same_of_outline _ hconsequence hb,
      alternative.same_of_outline _ halternative hb'.symm]
    rfl
  | .whileLoop _ condition body, s', h, ho => by
    rw [Stmt.parts] at h
    obtain ⟨hcondition, hbody⟩ := List.forall_mem_append.1 (List.forall_mem_append.1 h).1
    cases s' <;> simp only [Stmt.outline, reduceCtorEq, Stmt.whileLoop.injEq] at ho
    obtain ⟨-, hc, hb⟩ := ho
    rw [Stmt.same, condition.same_of_outline _ hcondition hc, body.same_of_outline _ hbody hb]
    rfl
  | .breakLoop _, s', h, ho => by
    cases s' <;> simp only [Stmt.outline, reduceCtorEq] at ho
    rw [Stmt.same]
  | .continueLoop _, s', h, ho => by
    cases s' <;> simp only [Stmt.outline, reduceCtorEq] at ho
    rw [Stmt.same]
  | .expr _ value, s', h, ho => by
    rw [Stmt.parts] at h
    cases s' <;> simp only [Stmt.outline, reduceCtorEq, Stmt.expr.injEq] at ho
    rw [Stmt.same]
    exact value.same_of_outline _ (List.forall_mem_append.1 h).1 ho.2

theorem sameAll_of_outline : (list list' : List Stmt) → (∀ part ∈ partsAll list, part.Steady) →
    outlineAll list = outlineAll list' → sameAll list list' = true
  | [], [], _, _ => by rw [sameAll]
  | [], _ :: _, _, ho | _ :: _, [], _, ho => by cases ho
  | s :: rest, s' :: rest', h, ho => by
    rw [partsAll] at h
    obtain ⟨hs, hrest⟩ := List.forall_mem_append.1 h
    rw [outlineAll, outlineAll, List.cons.injEq] at ho
    rw [sameAll, s.same_of_outline s' hs ho.1, sameAll_of_outline rest rest' hrest ho.2]
    rfl

end

theorem Program.same_of_outline {p q : Program} (hp : ∀ part ∈ p.parts, part.Steady)
    (h : p.outline = q.outline) : p.same q = true :=
  sameAll_of_outline p.statements q.statements hp h

end Leveret
