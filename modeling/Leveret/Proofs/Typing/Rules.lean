import Leveret.Proofs.Scopes
import Leveret.Typing.Checker

/-!
# Typing rules

When a tree is well typed, said without going through it in any order. The rules take a relation
that every typed node has to be in with its type. With the relation that always holds they are the
plain rules; with a table of annotations they also say that the table is right about the tree.
-/

namespace Leveret

mutual

inductive Expr.HasType (noted : Nat → Ty → Prop) : Chain Declaration → Expr → Option Ty → Prop
  | literal {Γ node value} : noted node.id value.ty →
      Expr.HasType noted Γ (.literal node value) (some value.ty)
  | unary {Γ node op operand ty ty'} : Expr.HasType noted Γ operand (some ty) →
      op.result? ty = some ty' → noted node.id ty' →
      Expr.HasType noted Γ (.unary node op operand) (some ty')
  | binary {Γ node op left right a b ty} : Expr.HasType noted Γ left (some a) →
      Expr.HasType noted Γ right (some b) → op.result? a b = some ty → noted node.id ty →
      Expr.HasType noted Γ (.binary node op left right) (some ty)
  | load {Γ node name isConst ty} : Γ.find? name = some ⟨isConst, some ty⟩ → noted node.id ty →
      Expr.HasType noted Γ (.load node name) (some ty)
  | compound {Γ node body r} : Block.HasType noted false Γ body r →
      (∀ ty ∈ r, noted node.id ty) → Expr.HasType noted Γ (.compound node body) r

inductive Block.HasType (noted : Nat → Ty → Prop) :
    (inLoop : Bool) → Chain Declaration → Block → Option Ty → Prop
  | intro {inLoop Γ span statements Γ' r} :
      Sequence noted inLoop Γ.push none statements Γ' r →
      Block.HasType noted inLoop Γ ⟨span, statements⟩ r

/-- A statement leads from the scopes `Γ` to the scopes `Γ'`. Only one that is an expression can
have a type. -/
inductive Stmt.WellTyped (noted : Nat → Ty → Prop) :
    (inLoop : Bool) → Chain Declaration → Stmt → Chain Declaration → Option Ty → Prop
  | declareZero {inLoop Γ node name ty Γ'} : noted node.id ty →
      Γ.Adds name ⟨false, some ty⟩ Γ' →
      Stmt.WellTyped noted inLoop Γ (.declareVar node name (some ty) none) Γ' none
  | declareVar {inLoop Γ node name declared init ty Γ'} : Expr.HasType noted Γ init (some ty) →
      (∀ ty' ∈ declared, ty' = ty) → noted node.id ty → Γ.Adds name ⟨false, some ty⟩ Γ' →
      Stmt.WellTyped noted inLoop Γ (.declareVar node name declared (some init)) Γ' none
  | declareConst {inLoop Γ node name declared init ty Γ'} : Expr.HasType noted Γ init (some ty) →
      (∀ ty' ∈ declared, ty' = ty) → noted node.id ty → Γ.Adds name ⟨true, some ty⟩ Γ' →
      Stmt.WellTyped noted inLoop Γ (.declareConst node name declared init) Γ' none
  | assign {inLoop Γ node name value ty} : Expr.HasType noted Γ value (some ty) →
      Γ.find? name = some ⟨false, some ty⟩ →
      Stmt.WellTyped noted inLoop Γ (.assign node name value) Γ none
  | print {inLoop Γ node value ty} : Expr.HasType noted Γ value (some ty) →
      Stmt.WellTyped noted inLoop Γ (.print node value) Γ none
  | ifOnly {inLoop Γ node test consequence r} : Expr.HasType noted Γ test (some .bool) →
      Block.HasType noted inLoop Γ consequence r →
      Stmt.WellTyped noted inLoop Γ (.ifElse node test consequence none) Γ none
  | ifElse {inLoop Γ node test consequence alternative r r'} :
      Expr.HasType noted Γ test (some .bool) → Block.HasType noted inLoop Γ consequence r →
      Block.HasType noted inLoop Γ alternative r' →
      Stmt.WellTyped noted inLoop Γ (.ifElse node test consequence (some alternative)) Γ none
  | whileLoop {inLoop Γ node test body r} : Expr.HasType noted Γ test (some .bool) →
      Block.HasType noted true Γ body r →
      Stmt.WellTyped noted inLoop Γ (.whileLoop node test body) Γ none
  | breakLoop {Γ node} : Stmt.WellTyped noted true Γ (.breakLoop node) Γ none
  | continueLoop {Γ node} : Stmt.WellTyped noted true Γ (.continueLoop node) Γ none
  | expr {inLoop Γ node value r} : Expr.HasType noted Γ value r →
      Stmt.WellTyped noted inLoop Γ (.expr node value) Γ r

/-- Statements in order. The type is that of the last one, or `last` if there are none. -/
inductive Sequence (noted : Nat → Ty → Prop) : (inLoop : Bool) → Chain Declaration →
    (last : Option Ty) → List Stmt → Chain Declaration → Option Ty → Prop
  | nil {inLoop Γ last} : Sequence noted inLoop Γ last [] Γ last
  | cons {inLoop Γ last s Γ' r rest Γ'' r'} : Stmt.WellTyped noted inLoop Γ s Γ' r →
      Sequence noted inLoop Γ' r rest Γ'' r' →
      Sequence noted inLoop Γ last (s :: rest) Γ'' r'

end

/-- The relation of a node's number to the type that a table holds for it. -/
def Annotations.Notes (table : Annotations) (id : Nat) (ty : Ty) : Prop := table[id]? = some ty

structure Chain.Typed (Γ : Chain Declaration) : Prop where
  nonempty : Γ.frames ≠ []
  types : ∀ d ∈ Γ.records, d.ty.isSome

theorem Chain.Typed.initial : Chain.Typed .initial := ⟨nofun, nofun⟩

theorem Chain.Typed.push {Γ : Chain Declaration} (h : Γ.Typed) : Γ.push.Typed :=
  ⟨nofun, h.types⟩

theorem Chain.Typed.adds {Γ Γ' : Chain Declaration} {name : String} {isConst : Bool} {ty : Ty}
    (h : Γ.Typed) (ha : Γ.Adds name ⟨isConst, some ty⟩ Γ') : Γ'.Typed := by
  refine ⟨?_, fun d hd => ?_⟩
  · obtain ⟨frame, outer, -, -, rfl⟩ := ha
    exact nofun
  · rw [ha.records, List.mem_cons] at hd
    rcases hd with rfl | hd
    · rfl
    · exact h.types d hd

section Facts

variable {P : Nat → Ty → Prop} {inLoop : Bool} {Γ Γ' : Chain Declaration}

theorem Expr.HasType.noted {e : Expr} {ty : Ty} (h : e.HasType P Γ (some ty)) :
    P e.id ty := by
  cases h with
  | literal hn | unary _ _ hn | binary _ _ _ hn | load _ hn => exact hn
  | compound _ hn => exact hn ty rfl

theorem Stmt.WellTyped.pop {s : Stmt} {r : Option Ty} (h : s.WellTyped P inLoop Γ Γ' r) :
    Γ'.pop = Γ.pop := by
  cases h with
  | declareZero _ ha | declareVar _ _ _ ha | declareConst _ _ _ ha => exact ha.pop
  | _ => rfl

theorem Sequence.pop {last r : Option Ty} {list : List Stmt}
    (h : Sequence P inLoop Γ last list Γ' r) : Γ'.pop = Γ.pop := by
  induction list generalizing Γ last with
  | nil =>
    cases h
    rfl
  | cons s rest ih =>
    cases h with
    | cons hs hrest => rw [ih hrest, hs.pop]

theorem Stmt.WellTyped.typed {s : Stmt} {r : Option Ty} (h : s.WellTyped P inLoop Γ Γ' r)
    (hΓ : Γ.Typed) : Γ'.Typed := by
  cases h with
  | declareZero _ ha | declareVar _ _ _ ha | declareConst _ _ _ ha => exact hΓ.adds ha
  | _ => exact hΓ

/-! ## Missing values -/

/-- An expression without a value: a block whose end is missing or has no value itself. -/
inductive Expr.Tailless : Expr → Prop where
  | missing {node body} : body.tail? = none → Tailless (.compound node body)
  | follow {node body e} : body.tail? = some e → Tailless e → Tailless (.compound node body)

end Facts

mutual

theorem Expr.HasType.tailless {P : Nat → Ty → Prop} {Γ : Chain Declaration} {e : Expr} :
    e.HasType P Γ none → e.Tailless
  | .compound h _ => h.tailless _

theorem Block.HasType.tailless {P : Nat → Ty → Prop} {inLoop : Bool} {Γ : Chain Declaration}
    {b : Block} : b.HasType P inLoop Γ none → ∀ node, Expr.Tailless (.compound node b)
  | .intro h, node => by
    cases ht : Block.tail? _ with
    | none => exact .missing ht
    | some e =>
      refine .follow ht ?_
      rw [Block.tail?] at ht
      split at ht
      · rename_i node e' hl
        cases ht
        exact h.tailless node e hl
      · cases ht

theorem Stmt.WellTyped.tailless {P : Nat → Ty → Prop} {inLoop : Bool} {Γ Γ' : Chain Declaration}
    {s : Stmt} : s.WellTyped P inLoop Γ Γ' none → ∀ node e, s = .expr node e → e.Tailless
  | .expr h, _, _, rfl => h.tailless

theorem Sequence.tailless {P : Nat → Ty → Prop} {inLoop : Bool} {Γ Γ' : Chain Declaration}
    {last : Option Ty} {list : List Stmt} : Sequence P inLoop Γ last list Γ' none →
      ∀ node e, list.getLast? = some (.expr node e) → e.Tailless
  | .cons hs .nil, node, e, he => hs.tailless node e (by simpa using he)
  | .cons _ h@(.cons _ _), node, e, he => h.tailless node e (by simpa using he)

end

end Leveret
