import Leveret.Proofs.Running.Safety
import Leveret.Proofs.Typing.Soundness

/-!
# What a run comes to

Every expression that a run evaluates, every block it enters and every statement it begins, each
with the state it is in. In a program that was accepted, each of these points keeps to the
annotations: values have the types of their expressions, and variables have the types of their
declarations.
-/

namespace Leveret

/-- What the evaluator is about to do. -/
inductive Task where
  | expr (e : Expr)
  | block (b : Block)
  | stmt (s : Stmt)
  | stmts (list : List Stmt)
  /-- A loop with so many passes left. -/
  | loop (test : Expr) (body : Block) (passes : Nat)
  | program (list : List Stmt)
  /-- Something is done, and what follows has not begun. -/
  | pause

def Stmt.binds (s : Stmt) (declared : Chain Nat) : Chain Nat :=
  match s with
  | .declareVar node name _ _ | .declareConst node name _ _ =>
    match declared.declare name node.id with
    | .ok declared' => declared'
    | .error _ => declared
  | _ => declared

/-- A run of the program with at most `limit` passes of each loop comes to a task in the state
`σ`. Beside the variables, `declared` has the numbers of the declarations that made them. -/
inductive Reached (limit : Nat) (p : Program) : Task → (declared : Chain Nat) → Eval.State → Prop
  | start : Reached limit p (.program p.statements) .initial .initial
  | topmost {s rest Δ σ} : Reached limit p (.program (s :: rest)) Δ σ →
      Reached limit p (.stmt s) Δ σ
  | programNext {s rest Δ σ v σ'} : Reached limit p (.program (s :: rest)) Δ σ →
      (Eval.stmt limit s).run σ = .ok (.value v) σ' →
      Reached limit p (.program rest) (s.binds Δ) σ'
  | operand {node op e Δ σ} : Reached limit p (.expr (.unary node op e)) Δ σ →
      Reached limit p (.expr e) Δ σ
  | left {node op e e' Δ σ} : Reached limit p (.expr (.binary node op e e')) Δ σ →
      Reached limit p (.expr e) Δ σ
  | right {node op e e' Δ σ v σ'} : Reached limit p (.expr (.binary node op e e')) Δ σ →
      (Eval.expr limit e).run σ = .ok (some v) σ' → Reached limit p (.expr e') Δ σ'
  | compound {node b Δ σ} : Reached limit p (.expr (.compound node b)) Δ σ →
      Reached limit p (.block b) Δ σ
  | exprDone {e Δ σ v σ'} : Reached limit p (.expr e) Δ σ →
      (Eval.expr limit e).run σ = .ok v σ' → Reached limit p .pause Δ σ'
  | inside {b Δ σ} : Reached limit p (.block b) Δ σ →
      Reached limit p (.stmts b.statements) Δ.push { σ with scopes := σ.scopes.push }
  | blockDone {b Δ σ c σ'} : Reached limit p (.block b) Δ σ →
      (Eval.block limit b).run σ = .ok c σ' → Reached limit p .pause Δ σ'
  | first {s rest Δ σ} : Reached limit p (.stmts (s :: rest)) Δ σ → Reached limit p (.stmt s) Δ σ
  | next {s rest Δ σ v σ'} : Reached limit p (.stmts (s :: rest)) Δ σ →
      (Eval.stmt limit s).run σ = .ok (.value v) σ' →
      Reached limit p (.stmts rest) (s.binds Δ) σ'
  | varInit {node name declared e Δ σ} :
      Reached limit p (.stmt (.declareVar node name declared (some e))) Δ σ →
      Reached limit p (.expr e) Δ σ
  | constInit {node name declared e Δ σ} :
      Reached limit p (.stmt (.declareConst node name declared e)) Δ σ →
      Reached limit p (.expr e) Δ σ
  | assigned {node name e Δ σ} : Reached limit p (.stmt (.assign node name e)) Δ σ →
      Reached limit p (.expr e) Δ σ
  | printed {node e Δ σ} : Reached limit p (.stmt (.print node e)) Δ σ →
      Reached limit p (.expr e) Δ σ
  | tested {node e b b' Δ σ} : Reached limit p (.stmt (.ifElse node e b b')) Δ σ →
      Reached limit p (.expr e) Δ σ
  | consequence {node e b b' Δ σ σ'} : Reached limit p (.stmt (.ifElse node e b b')) Δ σ →
      (Eval.expr limit e).run σ = .ok (some (.bool true)) σ' → Reached limit p (.block b) Δ σ'
  | alternative {node e b b' Δ σ σ'} :
      Reached limit p (.stmt (.ifElse node e b (some b'))) Δ σ →
      (Eval.expr limit e).run σ = .ok (some (.bool false)) σ' → Reached limit p (.block b') Δ σ'
  | whileLoop {node e b Δ σ} : Reached limit p (.stmt (.whileLoop node e b)) Δ σ →
      Reached limit p (.loop e b limit) Δ σ
  | loopTest {e b k Δ σ} : Reached limit p (.loop e b (k + 1)) Δ σ → Reached limit p (.expr e) Δ σ
  | loopBody {e b k Δ σ σ'} : Reached limit p (.loop e b (k + 1)) Δ σ →
      (Eval.expr limit e).run σ = .ok (some (.bool true)) σ' → Reached limit p (.block b) Δ σ'
  | loopNext {e b k Δ σ σ' c σ''} : Reached limit p (.loop e b (k + 1)) Δ σ →
      (Eval.expr limit e).run σ = .ok (some (.bool true)) σ' →
      (Eval.block limit b).run σ' = .ok c σ'' → c ≠ .breaking →
      Reached limit p (.loop e b k) Δ σ''
  | evaluated {node e Δ σ} : Reached limit p (.stmt (.expr node e)) Δ σ →
      Reached limit p (.expr e) Δ σ

def Program.Meets (p : Program) (limit : Nat) (task : Task) (σ : Eval.State) : Prop :=
  ∃ declared, Reached limit p task declared σ

def Program.MeetsRow (p : Program) (limit : Nat) (list : List Stmt) (σ : Eval.State) : Prop :=
  p.Meets limit (.stmts list) σ ∨ p.Meets limit (.program list) σ

theorem Program.MeetsRow.first {p : Program} {limit : Nat} {s : Stmt} {rest : List Stmt}
    {σ : Eval.State} (h : p.MeetsRow limit (s :: rest) σ) : p.Meets limit (.stmt s) σ := by
  rcases h with ⟨Δ, h⟩ | ⟨Δ, h⟩
  · exact ⟨Δ, h.first⟩
  · exact ⟨Δ, h.topmost⟩

theorem Program.MeetsRow.next {p : Program} {limit : Nat} {s : Stmt} {rest : List Stmt}
    {σ σ' : Eval.State} {v : Option Value} (h : p.MeetsRow limit (s :: rest) σ)
    (hrun : (Eval.stmt limit s).run σ = .ok (.value v) σ') : p.MeetsRow limit rest σ' := by
  rcases h with ⟨Δ, h⟩ | ⟨Δ, h⟩
  · exact .inl ⟨_, h.next hrun⟩
  · exact .inr ⟨_, h.programNext hrun⟩

def Program.Divides (p : Program) (limit : Nat) (a b : Int32) : Prop :=
  ∃ node e e' σ σ₁ σ₂, p.Meets limit (.expr (.binary node .divide e e')) σ ∧
    (Eval.expr limit e).run σ = .ok (some (.int a)) σ₁ ∧
    (Eval.expr limit e').run σ₁ = .ok (some (.int b)) σ₂

/-! ## Well-typed tasks -/

def Task.Sound (table : Annotations) (Γ : Chain Declaration) : Task → Prop
  | .expr e => ∃ r, e.HasType table.Notes Γ r
  | .block b => ∃ inLoop r, b.HasType table.Notes inLoop Γ r
  | .stmt s => ∃ inLoop Γ' r, s.WellTyped table.Notes inLoop Γ Γ' r
  | .stmts list => ∃ inLoop last Γ' r, Sequence table.Notes inLoop Γ last list Γ' r
  | .loop test body _ =>
    test.HasType table.Notes Γ (some .bool) ∧ ∃ r, body.HasType table.Notes true Γ r
  | .program list => ∃ last Γ' r, Sequence table.Notes false Γ last list Γ' r
  | .pause => True

/-- The scopes `Γ` are those of the declarations, as they are annotated, and of the variables. -/
structure InStep (table : Annotations) (Γ : Chain Declaration) (Δ : Chain Nat) (σ : Eval.State) :
    Prop where
  declared : Γ.Match (fun d id => table[id]? = d.ty) Δ
  values : Eval.Matches Γ σ

section

variable {table : Annotations} {Γ Γ' : Chain Declaration} {Δ : Chain Nat} {σ σ' : Eval.State}
  {limit : Nat}

theorem Stmt.WellTyped.binds {inLoop : Bool} {s : Stmt} {r : Option Ty}
    (h : s.WellTyped table.Notes inLoop Γ Γ' r) (hΔ : Γ.Match (fun d id => table[id]? = d.ty) Δ) :
    Γ'.Match (fun d id => table[id]? = d.ty) (s.binds Δ) := by
  cases h with
  | declareZero hn ha | declareVar _ _ hn ha | declareConst _ _ hn ha =>
    obtain ⟨Δ', hd, hm⟩ := hΔ.adds ha hn
    rw [Stmt.binds, Chain.declare_eq_ok.2 hd]
    exact hm
  | _ => exact hΔ

theorem InStep.variables (h : InStep table Γ Δ σ) :
    Δ.Match (fun id v => table[id]? = some v.ty) σ.scopes := by
  refine (h.declared.comp h.values).mono fun id _ v ⟨d, hid, hv⟩ => ?_
  rw [hid]
  exact hv

theorem InStep.expr {e : Expr} {r : Option Ty} {v : Option Value} (h : InStep table Γ Δ σ)
    (he : e.HasType table.Notes Γ r) (hrun : (Eval.expr limit e).run σ = .ok v σ') :
    v.map Value.ty = r ∧ InStep table Γ Δ σ' := by
  obtain ⟨hv, hσ'⟩ := (Eval.expr_safe he limit σ h.values).of_run hrun
  exact ⟨hv, h.declared, hσ'⟩

theorem InStep.block {b : Block} {inLoop : Bool} {r : Option Ty} {c : Completion}
    (h : InStep table Γ Δ σ) (hb : b.HasType table.Notes inLoop Γ r)
    (hrun : (Eval.block limit b).run σ = .ok c σ') : InStep table Γ Δ σ' :=
  ⟨h.declared, ((Eval.block_safe hb limit σ h.values).of_run hrun).1⟩

theorem InStep.stmt {s : Stmt} {inLoop : Bool} {r : Option Ty} {v : Option Value}
    (h : InStep table Γ Δ σ) (hs : s.WellTyped table.Notes inLoop Γ Γ' r)
    (hrun : (Eval.stmt limit s).run σ = .ok (.value v) σ') : InStep table Γ' (s.binds Δ) σ' :=
  ⟨hs.binds h.declared, ((Eval.stmt_safe hs limit σ h.values).of_run hrun).2⟩

/-- Every task of a run is well typed where it is done. -/
theorem Reached.sound {p : CheckedProgram} {task : Task} (hp : p.WellTyped)
    (h : Reached limit p.program task Δ σ) :
    ∃ Γ, task.Sound p.annotations Γ ∧ InStep p.annotations Γ Δ σ := by
  induction h with
  | start =>
    obtain ⟨Γ', r, ht⟩ := hp
    exact ⟨_, ⟨none, Γ', r, ht⟩, .initial, .initial⟩
  | topmost _ ih =>
    obtain ⟨Γ, ⟨last, Γ', r, ht⟩, hi⟩ := ih
    cases ht with
    | cons hs _ => exact ⟨Γ, ⟨false, _, _, hs⟩, hi⟩
  | programNext _ hrun ih =>
    obtain ⟨Γ, ⟨last, Γ', r, ht⟩, hi⟩ := ih
    cases ht with
    | cons hs hrest => exact ⟨_, ⟨_, _, _, hrest⟩, hi.stmt hs hrun⟩
  | operand _ ih =>
    obtain ⟨Γ, ⟨r, he⟩, hi⟩ := ih
    cases he with
    | unary he _ _ => exact ⟨Γ, ⟨_, he⟩, hi⟩
  | left _ ih =>
    obtain ⟨Γ, ⟨r, he⟩, hi⟩ := ih
    cases he with
    | binary he _ _ _ => exact ⟨Γ, ⟨_, he⟩, hi⟩
  | right _ hrun ih =>
    obtain ⟨Γ, ⟨r, he⟩, hi⟩ := ih
    cases he with
    | binary he he' _ _ => exact ⟨Γ, ⟨_, he'⟩, (hi.expr he hrun).2⟩
  | compound _ ih =>
    obtain ⟨Γ, ⟨r, he⟩, hi⟩ := ih
    cases he with
    | compound hb _ => exact ⟨Γ, ⟨_, _, hb⟩, hi⟩
  | exprDone _ hrun ih =>
    obtain ⟨Γ, ⟨r, he⟩, hi⟩ := ih
    exact ⟨Γ, trivial, (hi.expr he hrun).2⟩
  | inside _ ih =>
    obtain ⟨Γ, ⟨inLoop, r, hb⟩, hi⟩ := ih
    cases hb with
    | intro ht => exact ⟨_, ⟨_, _, _, _, ht⟩, hi.declared.push, hi.values.push⟩
  | blockDone _ hrun ih =>
    obtain ⟨Γ, ⟨inLoop, r, hb⟩, hi⟩ := ih
    exact ⟨Γ, trivial, hi.block hb hrun⟩
  | first _ ih =>
    obtain ⟨Γ, ⟨inLoop, last, Γ', r, ht⟩, hi⟩ := ih
    cases ht with
    | cons hs _ => exact ⟨Γ, ⟨_, _, _, hs⟩, hi⟩
  | next _ hrun ih =>
    obtain ⟨Γ, ⟨inLoop, last, Γ', r, ht⟩, hi⟩ := ih
    cases ht with
    | cons hs hrest => exact ⟨_, ⟨_, _, _, _, hrest⟩, hi.stmt hs hrun⟩
  | varInit _ ih | constInit _ ih | assigned _ ih | printed _ ih | evaluated _ ih =>
    obtain ⟨Γ, ⟨inLoop, Γ', r, hs⟩, hi⟩ := ih
    cases hs
    exact ⟨Γ, ⟨_, ‹_›⟩, hi⟩
  | tested _ ih =>
    obtain ⟨Γ, ⟨inLoop, Γ', r, hs⟩, hi⟩ := ih
    cases hs with
    | ifOnly he _ | ifElse he _ _ => exact ⟨Γ, ⟨_, he⟩, hi⟩
  | consequence _ hrun ih =>
    obtain ⟨Γ, ⟨inLoop, Γ', r, hs⟩, hi⟩ := ih
    cases hs with
    | ifOnly he hb | ifElse he hb _ => exact ⟨Γ, ⟨_, _, hb⟩, (hi.expr he hrun).2⟩
  | alternative _ hrun ih =>
    obtain ⟨Γ, ⟨inLoop, Γ', r, hs⟩, hi⟩ := ih
    cases hs with
    | ifElse he _ hb => exact ⟨Γ, ⟨_, _, hb⟩, (hi.expr he hrun).2⟩
  | whileLoop _ ih =>
    obtain ⟨Γ, ⟨inLoop, Γ', r, hs⟩, hi⟩ := ih
    cases hs with
    | whileLoop he hb => exact ⟨Γ, ⟨he, _, hb⟩, hi⟩
  | loopTest _ ih =>
    obtain ⟨Γ, ⟨he, r, hb⟩, hi⟩ := ih
    exact ⟨Γ, ⟨_, he⟩, hi⟩
  | loopBody _ hrun ih =>
    obtain ⟨Γ, ⟨he, r, hb⟩, hi⟩ := ih
    exact ⟨Γ, ⟨_, _, hb⟩, (hi.expr he hrun).2⟩
  | loopNext _ hrun hrun' _ ih =>
    obtain ⟨Γ, ⟨he, r, hb⟩, hi⟩ := ih
    exact ⟨Γ, ⟨he, r, hb⟩, (hi.expr he hrun).2.block hb hrun'⟩

/-! ## Whole runs -/

theorem Eval.program_safe {P : Nat → Ty → Prop} {last r : Option Ty} {list : List Stmt}
    (h : Sequence P false Γ last list Γ' r) (hσ : Eval.Matches Γ σ) :
    Eval.Safe (Eval.program limit list) σ fun _ σ' => Eval.Matches Γ' σ' := by
  induction list generalizing Γ last σ with
  | nil =>
    cases h
    exact hσ
  | cons s rest ih =>
    cases h with
    | cons hs hrest =>
      rw [Eval.program]
      refine (Eval.stmt_safe hs limit σ hσ).bind fun c σ₁ hc => ?_
      cases c with
      | value v => exact ih hrest hc.2
      | breaking | continuing => cases hc.1

theorem CheckedProgram.WellTyped.run_allowed {p : CheckedProgram} {halt : Halt}
    (hp : p.WellTyped) (h : (p.program.run limit).halt = some halt) : halt.Allowed := by
  obtain ⟨Γ', r, ht⟩ := hp
  have hsafe : Eval.Safe (Eval.program limit p.program.statements) .initial _ :=
    Eval.program_safe ht .initial
  rw [Program.run] at h
  split at h
  · cases h
  · rename_i hrun
    cases h
    exact hsafe.of_error hrun

end

/-- Runs of a program that was accepted keep to its types. -/
theorem checkSource_run_sound {source file : String} {p : CheckedProgram}
    (h : checkSource source file = .ok p) (limit : Nat) :
    (∀ d, (p.program.run limit).halt = some (.failed d) → d.cause = .divisionByZero) ∧
    (∀ e Δ σ v σ', Reached limit p.program (.expr e) Δ σ →
      (Eval.expr limit e).run σ = .ok (some v) σ' → p.annotations[e.id]? = some v.ty) ∧
    (∀ task Δ σ, Reached limit p.program task Δ σ →
      Δ.Match (fun id v => p.annotations[id]? = some v.ty) σ.scopes) ∧
    (∀ e Δ σ σ', Reached limit p.program (.expr e) Δ σ →
      (Eval.expr limit e).run σ = .ok none σ' → e.Tailless) ∧
    (∀ node b Δ σ c σ', Reached limit p.program (.expr (.compound node b)) Δ σ →
      (Eval.block limit b).run σ = .ok c σ' → ∃ v, c = .value v) ∧
    (∀ s rest Δ σ c σ', Reached limit p.program (.program (s :: rest)) Δ σ →
      (Eval.stmt limit s).run σ = .ok c σ' → ∃ v, c = .value v) := by
  have hp := checkSource_wellTyped h
  refine ⟨?_, ?_, ?_, ?_, ?_, ?_⟩
  · intro d hd
    cases hp.run_allowed hd
    rfl
  · intro e Δ σ v σ' hr hrun
    obtain ⟨Γ, ⟨r, he⟩, hi⟩ := hr.sound hp
    obtain ⟨rfl, -⟩ := hi.expr he hrun
    exact he.noted
  · intro task Δ σ hr
    obtain ⟨Γ, -, hi⟩ := hr.sound hp
    exact hi.variables
  · intro e Δ σ σ' hr hrun
    obtain ⟨Γ, ⟨r, he⟩, hi⟩ := hr.sound hp
    obtain ⟨rfl, -⟩ := hi.expr he hrun
    exact he.tailless
  · intro node b Δ σ c σ' hr hrun
    obtain ⟨Γ, ⟨r, he⟩, hi⟩ := hr.sound hp
    cases he with
    | compound hb _ =>
      have hc := (Eval.block_safe hb limit σ hi.values).of_run hrun
      cases c with
      | value v => exact ⟨v, rfl⟩
      | breaking | continuing => cases hc.2
  · intro s rest Δ σ c σ' hr hrun
    obtain ⟨Γ, ⟨last, Γ', r, ht⟩, hi⟩ := hr.sound hp
    cases ht with
    | cons hs _ =>
      have hc := (Eval.stmt_safe hs limit σ hi.values).of_run hrun
      cases c with
      | value v => exact ⟨v, rfl⟩
      | breaking | continuing => cases hc.1

theorem exists_checkSource_run_sound :
    ∃ p, checkSource "var x = 1; while x > 0 { x = x - 1; print 7 / x; }" "zero" = .ok p ∧
      (p.program.run 3).output = [] ∧
      (p.program.run 3).halt ≠ none ∧ (p.program.run 3).halt ≠ some .unfinished ∧
      ∀ d, (p.program.run 3).halt = some (.failed d) → d.cause = .divisionByZero := by
  have hrun : (checkSource "var x = 1; while x > 0 { x = x - 1; print 7 / x; }"
      "zero").toOption.map (fun p => p.program.run 3) =
        some ⟨[], some (.failed ⟨.divisionByZero, ⟨42, "zero"⟩⟩)⟩ := by
    decide +kernel
  obtain ⟨p, hp, hrun⟩ := Option.map_eq_some_iff.1 hrun
  have hp := toOption_eq_some.1 hp
  refine ⟨p, hp, by rw [hrun], by rw [hrun]; nofun, by rw [hrun]; nofun, ?_⟩
  exact (checkSource_run_sound hp 3).1

end Leveret
