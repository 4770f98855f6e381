import Leveret.Proofs.Typing.Recovery

/-!
# What checking finds out about each node

The checker goes through a tree and comes to a result at each node, in the state that it is in
there. The findings of a tree list its nodes, children before parents, each with this result. An
expression without a value is a matter of its form alone.
-/

namespace Leveret

open Checker

abbrev Finding := Part × Synthesis

mutual

/-- What is found out when the expression is checked in the state `s`. -/
def Expr.findings : Expr → State → List Finding
  | e@(.literal ..), s | e@(.load ..), s => [(.expr e, ((expr e).run s).1)]
  | e@(.unary _ _ operand), s => operand.findings s ++ [(.expr e, ((expr e).run s).1)]
  | e@(.binary _ _ left right), s =>
    left.findings s ++ right.findings ((value left).run s).2 ++ [(.expr e, ((expr e).run s).1)]
  | e@(.compound _ body), s =>
    body.findings { s with loopDepth := 0 } ++ [(.expr e, ((expr e).run s).1)]

def Block.findings : Block → State → List Finding
  | ⟨_, statements⟩, s => findingsAll statements { s with scopes := s.scopes.push }

def Stmt.findings : Stmt → State → List Finding
  | t@(.declareVar _ _ _ none), s | t@(.breakLoop _), s | t@(.continueLoop _), s =>
    [(.stmt t, ((stmt t).run s).1)]
  | t@(.declareVar _ _ _ (some init)), s => init.findings s ++ [(.stmt t, ((stmt t).run s).1)]
  | t@(.declareConst _ _ _ init), s => init.findings s ++ [(.stmt t, ((stmt t).run s).1)]
  | t@(.assign _ _ value), s => value.findings s ++ [(.stmt t, ((stmt t).run s).1)]
  | t@(.print _ value), s => value.findings s ++ [(.stmt t, ((stmt t).run s).1)]
  | t@(.ifElse _ condition consequence none), s =>
    condition.findings s ++ consequence.findings ((test "if" condition).run s).2 ++
      [(.stmt t, ((stmt t).run s).1)]
  | t@(.ifElse _ condition consequence (some alternative)), s =>
    let s' := ((test "if" condition).run s).2
    condition.findings s ++ consequence.findings s' ++
      alternative.findings ((block consequence).run s').2 ++ [(.stmt t, ((stmt t).run s).1)]
  | t@(.whileLoop _ condition body), s =>
    let s' := ((test "while" condition).run s).2
    condition.findings s ++ body.findings { s' with loopDepth := s'.loopDepth + 1 } ++
      [(.stmt t, ((stmt t).run s).1)]
  | t@(.expr _ value), s => value.findings s ++ [(.stmt t, ((stmt t).run s).1)]

def findingsAll : List Stmt → State → List Finding
  | [], _ => []
  | t :: rest, s => t.findings s ++ findingsAll rest ((stmt t).run s).2

end

def Program.findings (p : Program) : List Finding := findingsAll p.statements .initial

/-! ## Every node has one finding -/

mutual

theorem Expr.map_findings : (e : Expr) → ∀ s, (e.findings s).map Prod.fst = e.parts
  | .literal node value, s | .load node name, s => rfl
  | .unary node op operand, s => by simp [Expr.findings, Expr.parts, operand.map_findings]
  | .binary node op left right, s => by
    simp [Expr.findings, Expr.parts, left.map_findings, right.map_findings]
  | .compound node body, s => by simp [Expr.findings, Expr.parts, body.map_findings]

theorem Block.map_findings : (b : Block) → ∀ s, (b.findings s).map Prod.fst = b.parts
  | ⟨_, statements⟩, s => by rw [Block.findings, Block.parts, map_findingsAll]

theorem Stmt.map_findings : (t : Stmt) → ∀ s, (t.findings s).map Prod.fst = t.parts
  | .declareVar node name declared none, s | .breakLoop node, s | .continueLoop node, s => rfl
  | .declareVar node name declared (some init), s | .declareConst node name declared init, s => by
    simp [Stmt.findings, Stmt.parts, init.map_findings]
  | .assign node name value, s => by simp [Stmt.findings, Stmt.parts, value.map_findings]
  | .print node value, s | .expr node value, s => by
    simp [Stmt.findings, Stmt.parts, value.map_findings]
  | .ifElse node condition consequence none, s => by
    simp [Stmt.findings, Stmt.parts, condition.map_findings, consequence.map_findings]
  | .ifElse node condition consequence (some alternative), s => by
    simp [Stmt.findings, Stmt.parts, condition.map_findings, consequence.map_findings,
      alternative.map_findings]
  | .whileLoop node condition body, s => by
    simp [Stmt.findings, Stmt.parts, condition.map_findings, body.map_findings]

theorem map_findingsAll : (list : List Stmt) → ∀ s, (findingsAll list s).map Prod.fst = partsAll list
  | [], s => rfl
  | t :: rest, s => by
    rw [findingsAll, partsAll, List.map_append, t.map_findings, map_findingsAll rest]

end

theorem Expr.mem_findings (e : Expr) (s : State) :
    (.expr e, ((Checker.expr e).run s).1) ∈ e.findings s := by
  cases e <;> simp [Expr.findings]

def Part.check : Part → Checker Synthesis
  | .expr e => Checker.expr e
  | .stmt t => Checker.stmt t

mutual

/-- A finding is what checking the node comes to in some state. -/
theorem Expr.exists_run : (e : Expr) → ∀ s, ∀ x ∈ e.findings s, ∃ s', x.2 = (x.1.check.run s').1
  | .literal node value, s | .load node name, s => by
    simp only [Expr.findings, List.mem_singleton, forall_eq]
    exact ⟨s, rfl⟩
  | .unary node op operand, s => by
    simp only [Expr.findings, List.forall_mem_append, List.forall_mem_singleton]
    exact ⟨operand.exists_run s, s, rfl⟩
  | .binary node op left right, s => by
    simp only [Expr.findings, List.forall_mem_append, List.forall_mem_singleton]
    exact ⟨⟨left.exists_run _, right.exists_run _⟩, s, rfl⟩
  | .compound node body, s => by
    simp only [Expr.findings, List.forall_mem_append, List.forall_mem_singleton]
    exact ⟨body.exists_run _, s, rfl⟩

theorem Block.exists_run : (b : Block) → ∀ s, ∀ x ∈ b.findings s,
    ∃ s', x.2 = (x.1.check.run s').1
  | ⟨_, statements⟩, s => by
    rw [Block.findings]
    exact findingsAll_exists_run statements _

theorem Stmt.exists_run : (t : Stmt) → ∀ s, ∀ x ∈ t.findings s, ∃ s', x.2 = (x.1.check.run s').1
  | .declareVar node name declared none, s | .breakLoop node, s | .continueLoop node, s => by
    simp only [Stmt.findings, List.mem_singleton, forall_eq]
    exact ⟨s, rfl⟩
  | .declareVar node name declared (some value), s | .declareConst node name declared value, s
  | .assign node name value, s | .print node value, s | .expr node value, s => by
    simp only [Stmt.findings, List.forall_mem_append, List.forall_mem_singleton]
    exact ⟨value.exists_run s, s, rfl⟩
  | .ifElse node condition body none, s | .whileLoop node condition body, s => by
    simp only [Stmt.findings, List.forall_mem_append, List.forall_mem_singleton]
    exact ⟨⟨condition.exists_run s, body.exists_run _⟩, s, rfl⟩
  | .ifElse node condition consequence (some alternative), s => by
    simp only [Stmt.findings, List.forall_mem_append, List.forall_mem_singleton]
    exact ⟨⟨⟨condition.exists_run s, consequence.exists_run _⟩, alternative.exists_run _⟩, s, rfl⟩

theorem findingsAll_exists_run : (list : List Stmt) → ∀ s, ∀ x ∈ findingsAll list s,
    ∃ s', x.2 = (x.1.check.run s').1
  | [], s => nofun
  | t :: rest, s => by
    simp only [findingsAll, List.forall_mem_append]
    exact ⟨t.exists_run s, findingsAll_exists_run rest _⟩

end

/-! ## Missing values -/

theorem Expr.tailless_compound {node : Node} {body : Block} :
    Expr.Tailless (.compound node body) ↔
      ∀ node e, body.statements.getLast? = some (.expr node e) → e.Tailless := by
  have htail : ∀ e, body.tail? = some e ↔
      ∃ node, body.statements.getLast? = some (.expr node e) := by
    intro e
    unfold Block.tail?
    split
    · rename_i node e' hlast
      simp [hlast]
    · rename_i hlast
      simp only [reduceCtorEq, false_iff, not_exists]
      exact fun node h => hlast node e h
  constructor
  · intro h node e hlast
    have he := (htail e).2 ⟨node, hlast⟩
    cases h with
    | missing hnone =>
      rw [hnone] at he
      cases he
    | follow hsome h =>
      rw [hsome] at he
      cases he
      exact h
  · intro h
    cases ht : body.tail? with
    | none => exact .missing ht
    | some e =>
      obtain ⟨node, hlast⟩ := (htail e).1 ht
      exact .follow ht (h node e hlast)

namespace Checker

theorem conclude_fst (node : Node) (synthesis : Synthesis) (s : State) :
    ((conclude node synthesis).run s).1 = synthesis := by
  cases synthesis <;> rfl

theorem unary_ne_noValue (node : Node) (op : UnaryOp) (operand : Option Ty) (s : State) :
    ((unary node op operand).run s).1 ≠ .noValue := by
  unfold unary
  split
  · nofun
  · split
    · rw [conclude_fst]
      nofun
    · nofun

theorem binary_ne_noValue (node : Node) (op : BinaryOp) (left right : Option Ty) (s : State) :
    ((binary node op left right).run s).1 ≠ .noValue := by
  unfold binary
  split
  · split
    · rw [conclude_fst]
      nofun
    · nofun
  · nofun

theorem load_ne_noValue (node : Node) (name : String) (s : State) :
    ((load node name).run s).1 ≠ .noValue := by
  unfold load
  rw [run_get_bind]
  split
  · rw [conclude_fst]
    nofun
  · nofun
  · nofun

mutual

theorem expr_eq_noValue : (e : Expr) → ∀ s, ((expr e).run s).1 = .noValue ↔ e.Tailless
  | .literal node value, s => by
    rw [expr, conclude_fst]
    exact ⟨nofun, nofun⟩
  | .unary node op operand, s => by
    rw [expr]
    exact ⟨fun h => absurd h (unary_ne_noValue _ _ _ _), nofun⟩
  | .binary node op left right, s => by
    rw [expr]
    exact ⟨fun h => absurd h (binary_ne_noValue _ _ _ _ _), nofun⟩
  | .load node name, s => by
    rw [expr]
    exact ⟨fun h => absurd h (load_ne_noValue _ _ _), nofun⟩
  | .compound node ⟨span, statements⟩, s => by
    have hrun : ((expr (.compound node ⟨span, statements⟩)).run s).1 =
        ((stmts .noValue statements).run
          { s with loopDepth := 0, scopes := s.scopes.push }).1 := by
      rw [expr, block]
      exact conclude_fst _ _ _
    rw [hrun, stmts_eq_noValue, Expr.tailless_compound]
    exact ⟨fun h => h.2, fun h => ⟨fun _ => rfl, h⟩⟩

theorem stmt_eq_noValue : (t : Stmt) → ∀ s,
    ((stmt t).run s).1 = .noValue ↔ ∀ node e, t = .expr node e → e.Tailless
  | .declareVar node name declared none, s | .declareVar node name declared (some init), s
  | .declareConst node name declared init, s | .assign node name value, s | .print node value, s
  | .ifElse node condition consequence none, s
  | .ifElse node condition consequence (some alternative), s
  | .whileLoop node condition body, s | .breakLoop node, s | .continueLoop node, s => by
    rw [stmt]
    exact ⟨fun _ => nofun, fun _ => rfl⟩
  | .expr node value, s => by
    rw [stmt, expr_eq_noValue value s]
    constructor
    · rintro h _ _ ⟨⟩
      exact h
    · intro h
      exact h node value rfl

theorem stmts_eq_noValue : (list : List Stmt) → ∀ last s,
    ((stmts last list).run s).1 = .noValue ↔
      (list = [] → last = .noValue) ∧
        ∀ node e, list.getLast? = some (.expr node e) → e.Tailless
  | [], last, s => by
    rw [stmts]
    exact ⟨fun h => ⟨fun _ => h, nofun⟩, fun h => h.1 rfl⟩
  | t :: rest, last, s => by
    have hrun : ((stmts last (t :: rest)).run s).1 =
        ((stmts ((stmt t).run s).1 rest).run ((stmt t).run s).2).1 := by
      rw [stmts]
      rfl
    rw [hrun, stmts_eq_noValue rest]
    cases rest with
    | nil =>
      simp only [forall_const, List.getLast?_nil, reduceCtorEq, false_implies, implies_true,
        and_true, List.getLast?_singleton, Option.some.injEq, true_and]
      exact stmt_eq_noValue t s
    | cons t' rest => simp

end

end Checker

end Leveret
