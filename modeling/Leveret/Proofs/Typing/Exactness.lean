import Leveret.Proofs.Typing.Judgement
import Leveret.Proofs.Typing.Soundness

/-!
# The checker accepts just the well-typed programs

The checker goes by tables, recovers from faults and reads its result off the last statement. The
judgement does none of this. Both come to the same: a program from the parser is checked without a
fault if, and only if, it is well typed.
-/

namespace Leveret

/-! ## Tables and rules -/

theorem UnaryOp.takes_of_result? {op : UnaryOp} {ty ty' : Ty} (h : op.result? ty = some ty') :
    op.Takes ty ty' := by
  cases ty <;> cases h
  · exact .number (by decide)
  · exact .number (by decide)

theorem UnaryOp.Takes.result? {op : UnaryOp} {ty ty' : Ty} (h : op.Takes ty ty') :
    op.result? ty = some ty' := by
  cases h with
  | number hty =>
    revert hty
    cases op <;> cases ty <;> decide

theorem BinaryOp.takes_of_result? {op : BinaryOp} {a b ty : Ty} (h : op.result? a b = some ty) :
    a = b ∧ op.Takes a ty := by
  cases a <;> cases b <;> cases op <;> cases h
  all_goals
    refine ⟨rfl, ?_⟩
    first
    | exact .arithmetic (by decide) (by decide)
    | exact .order (by decide) (by decide)
    | exact .equality (by decide)
    | exact .logic (by decide)

theorem BinaryOp.Takes.result? {op : BinaryOp} {ty ty' : Ty} (h : op.Takes ty ty') :
    op.result? ty ty = some ty' := by
  cases h with
  | arithmetic hop hty =>
    revert hop hty
    cases op <;> cases ty <;> decide
  | order hop hty =>
    revert hop hty
    cases op <;> cases ty <;> decide
  | equality hop =>
    revert hop
    cases op <;> cases ty <;> decide
  | logic hop =>
    revert hop
    cases op <;> decide

/-! ## Environments and scopes -/

def Binding.declaration (b : Binding) : Declaration := ⟨b.isConst, some b.ty⟩

theorem Binding.declaration_inj {b b' : Binding} (h : b.declaration = b'.declaration) : b = b' := by
  obtain ⟨isConst, ty⟩ := b
  obtain ⟨isConst', ty'⟩ := b'
  cases h
  rfl

namespace Environment

variable {env env' : Environment} {name : String} {b : Binding}

def chain (env : Environment) : Chain Declaration :=
  ⟨env.map fun frame => frame.map fun entry => (entry.1, entry.2.declaration)⟩

theorem lookup_declaration (frame : List (String × Binding)) (name : String) :
    (frame.map fun entry => (entry.1, entry.2.declaration)).lookup name =
      (frame.lookup name).map Binding.declaration := by
  induction frame with
  | nil => rfl
  | cons entry rest ih =>
    rw [List.map_cons, List.lookup_cons, List.lookup_cons]
    split
    · rfl
    · exact ih

theorem sees_iff_find? : env.Sees name b ↔ env.chain.find? name = some b.declaration := by
  induction env with
  | nil => exact ⟨nofun, nofun⟩
  | cons frame outer ih =>
    have hchain : chain (frame :: outer) = ⟨_ :: (chain outer).frames⟩ := rfl
    rw [hchain, Chain.find?, List.findSome?_cons, lookup_declaration]
    cases hl : frame.lookup name with
    | none =>
      refine ⟨fun h => ?_, fun h => .outside hl (ih.2 h)⟩
      cases h with
      | here h' =>
        rw [hl] at h'
        cases h'
      | outside _ h' => exact ih.1 h'
    | some b' =>
      refine ⟨fun h => ?_, fun h => .here ?_⟩
      · cases h with
        | here h' =>
          rw [hl] at h'
          cases h'
          rfl
        | outside h' _ =>
          rw [hl] at h'
          cases h'
      · rw [hl, Binding.declaration_inj (Option.some.inj h)]

theorem Declares.adds (h : env.Declares name b env') :
    env.chain.Adds name b.declaration env'.chain := by
  cases h with
  | intro hl => exact ⟨_, _, rfl, by rw [lookup_declaration, hl]; rfl, rfl⟩

theorem exists_declares {Γ : Chain Declaration} (h : env.chain.Adds name b.declaration Γ) :
    ∃ env', Γ = env'.chain ∧ env.Declares name b env' := by
  obtain ⟨frame, outer, hframes, hl, rfl⟩ := h
  cases env with
  | nil => cases hframes
  | cons frame' outer' =>
    cases hframes
    rw [lookup_declaration, Option.map_eq_none_iff] at hl
    exact ⟨_, rfl, .intro hl⟩

end Environment

/-! ## From the rules with annotations to the judgement -/

/-- What the statements `list` come to where `last` was the value before. -/
structure Statements.Ends (inLoop : Bool) (env : Environment) (last : Option Ty)
    (list : List Stmt) (r : Option Ty) (env' : Environment) : Prop where
  typed : Statements.Typed inLoop env list env'
  value : ∀ init node e, list = init ++ [.expr node e] → ∃ env₁,
    Statements.Typed inLoop env init env₁ ∧ e.Typed env₁ r
  noValue : list ≠ [] → (∀ node e, list.getLast? ≠ some (.expr node e)) → r = none
  empty : list = [] → r = last

section Rules

variable {inLoop : Bool} {env env' env'' : Environment} {last r r' : Option Ty}

theorem Statements.Ends.nil : Statements.Ends inLoop env last [] last env :=
  ⟨.nil, fun init _ _ h => by simp at h, fun h => absurd rfl h, fun _ => rfl⟩

theorem Statements.Ends.cons {s : Stmt} {rest : List Stmt} (hs : s.Typed inLoop env env')
    (hvalue : ∀ node e, s = .expr node e → e.Typed env r)
    (hnone : (∀ node e, s ≠ .expr node e) → r = none)
    (h : Statements.Ends inLoop env' r rest r' env'') :
    Statements.Ends inLoop env last (s :: rest) r' env'' where
  typed := .cons hs h.typed
  value init node e hlist := by
    cases init with
    | nil =>
      obtain ⟨rfl, rfl⟩ := List.cons.inj hlist
      rw [h.empty rfl]
      exact ⟨env, .nil, hvalue node e rfl⟩
    | cons s' init =>
      obtain ⟨rfl, rfl⟩ := List.cons.inj hlist
      obtain ⟨env₁, hinit, he⟩ := h.value init node e rfl
      exact ⟨env₁, .cons hs hinit, he⟩
  noValue _ hlast := by
    cases rest with
    | nil =>
      rw [h.empty rfl]
      exact hnone fun node e hs => hlast node e (by rw [hs]; rfl)
    | cons s' rest => exact h.noValue nofun hlast
  empty h := by cases h

theorem Statements.Ends.block {span : Span} {list : List Stmt}
    (h : Statements.Ends inLoop ([] :: env) none list r env') :
    Block.Typed inLoop env ⟨span, list⟩ r := by
  by_cases hlast : ∃ node e, list.getLast? = some (.expr node e)
  · obtain ⟨node, e, hlast⟩ := hlast
    obtain ⟨init, rfl⟩ := List.getLast?_eq_some_iff.1 hlast
    obtain ⟨env₁, hinit, he⟩ := h.value init node e rfl
    exact .value hinit he
  · have hlast : ∀ node e, list.getLast? ≠ some (.expr node e) :=
      fun node e he => hlast ⟨node, e, he⟩
    have hr : r = none := by
      by_cases hnil : list = []
      · exact h.empty hnil
      · exact h.noValue hnil hlast
    subst hr
    exact .noValue h.typed hlast

end Rules

mutual

theorem Expr.HasType.judged {P : Nat → Ty → Prop} {env : Environment} {e : Expr} {r : Option Ty} :
    e.HasType P env.chain r → e.Typed env r
  | @Expr.HasType.literal _ _ _ value _ => by
    cases value with
    | int n => exact .int
    | float x => exact .float
    | bool b => exact .bool
  | .unary h hop _ => .unary h.judged (UnaryOp.takes_of_result? hop)
  | .binary h h' hop _ => by
    obtain ⟨rfl, htakes⟩ := BinaryOp.takes_of_result? hop
    exact .binary h.judged h'.judged htakes
  | @Expr.HasType.load _ _ _ _ isConst ty hf _ =>
    .load (b := ⟨isConst, ty⟩) (Environment.sees_iff_find?.2 hf)
  | .compound h _ => .compound h.judged

theorem Block.HasType.judged {P : Nat → Ty → Prop} {inLoop : Bool} {env : Environment} {b : Block}
    {r : Option Ty} : b.HasType P inLoop env.chain r → b.Typed inLoop env r
  | .intro h => by
    obtain ⟨env', -, hends⟩ := Sequence.judged ([] :: env) h
    exact hends.block

theorem Stmt.WellTyped.judged {P : Nat → Ty → Prop} {inLoop : Bool} {env : Environment} {s : Stmt}
    {Γ' : Chain Declaration} {r : Option Ty} : s.WellTyped P inLoop env.chain Γ' r →
      ∃ env', Γ' = env'.chain ∧ s.Typed inLoop env env' ∧
        (∀ node e, s = .expr node e → e.Typed env r) ∧ ((∀ node e, s ≠ .expr node e) → r = none)
  | @Stmt.WellTyped.declareZero _ _ _ _ name ty _ _ ha => by
    obtain ⟨env', hΓ', hd⟩ := Environment.exists_declares (b := ⟨false, ty⟩) ha
    exact ⟨env', hΓ', .declareZero hd, nofun, fun _ => rfl⟩
  | @Stmt.WellTyped.declareVar _ _ _ _ name _ _ ty _ h hdeclared _ ha => by
    obtain ⟨env', hΓ', hd⟩ := Environment.exists_declares (b := ⟨false, ty⟩) ha
    exact ⟨env', hΓ', .declareVar h.judged hdeclared hd, nofun, fun _ => rfl⟩
  | @Stmt.WellTyped.declareConst _ _ _ _ name _ _ ty _ h hdeclared _ ha => by
    obtain ⟨env', hΓ', hd⟩ := Environment.exists_declares (b := ⟨true, ty⟩) ha
    exact ⟨env', hΓ', .declareConst h.judged hdeclared hd, nofun, fun _ => rfl⟩
  | @Stmt.WellTyped.assign _ _ _ _ name _ ty h hf =>
    ⟨env, rfl, .assign h.judged ((Environment.sees_iff_find? (b := ⟨false, ty⟩)).2 hf), nofun,
      fun _ => rfl⟩
  | .print h => ⟨env, rfl, .print h.judged, nofun, fun _ => rfl⟩
  | .ifOnly h hb => ⟨env, rfl, .ifOnly h.judged hb.judged, nofun, fun _ => rfl⟩
  | .ifElse h hb hb' => ⟨env, rfl, .ifElse h.judged hb.judged hb'.judged, nofun, fun _ => rfl⟩
  | .whileLoop h hb => ⟨env, rfl, .whileLoop h.judged hb.judged, nofun, fun _ => rfl⟩
  | .breakLoop => ⟨env, rfl, .breakLoop, nofun, fun _ => rfl⟩
  | .continueLoop => ⟨env, rfl, .continueLoop, nofun, fun _ => rfl⟩
  | .expr h => by
    refine ⟨env, rfl, .expr h.judged, ?_, fun hno => absurd rfl (hno _ _)⟩
    rintro node e ⟨⟩
    exact h.judged

theorem Sequence.judged {P : Nat → Ty → Prop} {inLoop : Bool} (env : Environment)
    {last : Option Ty} {list : List Stmt} {Γ' : Chain Declaration} {r : Option Ty} :
    Sequence P inLoop env.chain last list Γ' r →
      ∃ env', Γ' = env'.chain ∧ Statements.Ends inLoop env last list r env'
  | .nil => ⟨env, rfl, .nil⟩
  | .cons hs hrest => by
    obtain ⟨env₁, rfl, hs₁, hvalue, hnone⟩ := hs.judged
    obtain ⟨env', hΓ', hends⟩ := Sequence.judged env₁ hrest
    exact ⟨env', hΓ', .cons hs₁ hvalue hnone hends⟩

end

/-! ## Well-typed programs are checked without a fault -/

namespace Checker

/-- From every state in the scopes of `env` the step comes to `a`, in the scopes of `env'`, without
a fault. In a loop means that a jump could leave one. -/
def Accepts {α : Type} (inLoop : Bool) (env : Environment) (m : Checker α) (a : α)
    (env' : Environment) : Prop :=
  ∀ s, s.scopes = env.chain → (inLoop = true → 0 < s.loopDepth) → ∃ s', m.run s = (a, s') ∧
    s'.errors = s.errors ∧ s'.loopDepth = s.loopDepth ∧ s'.scopes = env'.chain

section Accepts

variable {α β : Type} {inLoop inLoop' : Bool} {env env' env'' : Environment} {m : Checker α}
  {f : α → Checker β} {a : α} {b : β} {node : Node} {position : Position} {ty ty' : Ty}

theorem Accepts.pure : Accepts inLoop env (pure a) a env :=
  fun s hs _ => ⟨s, rfl, rfl, rfl, hs⟩

theorem Accepts.bind (hm : Accepts inLoop env m a env') (hf : Accepts inLoop env' (f a) b env'') :
    Accepts inLoop env (m >>= f) b env'' := by
  intro s hs hl
  obtain ⟨s₁, hrun, herrors, hdepth, hscopes⟩ := hm s hs hl
  obtain ⟨s₂, hrun', herrors', hdepth', hscopes'⟩ := hf s₁ hscopes (hdepth ▸ hl)
  refine ⟨s₂, ?_, herrors'.trans herrors, hdepth'.trans hdepth, hscopes'⟩
  rw [StateT.run_bind, hrun]
  exact hrun'

theorem annotate_accepts (id : Nat) : Accepts inLoop env (annotate id ty) () env :=
  fun _ hs _ => ⟨_, rfl, rfl, rfl, hs⟩

theorem conclude_accepts (synthesis : Synthesis) :
    Accepts inLoop env (conclude node synthesis) synthesis env := by
  intro s hs _
  cases synthesis with
  | typed ty => exact ⟨_, rfl, rfl, rfl, hs⟩
  | noValue | poisoned => exact ⟨s, rfl, rfl, rfl, hs⟩

theorem require_accepts : Accepts inLoop env (require position (.of (some ty))) (some ty) env :=
  .pure

theorem unary_accepts {op : UnaryOp} (h : op.Takes ty ty') :
    Accepts inLoop env (unary node op (some ty)) (.of (some ty')) env := by
  rw [unary, h.result?]
  exact conclude_accepts _

theorem binary_accepts {op : BinaryOp} (h : op.Takes ty ty') :
    Accepts inLoop env (binary node op (some ty) (some ty)) (.of (some ty')) env := by
  rw [binary, h.result?]
  exact conclude_accepts _

theorem load_accepts {name : String} {b : Binding} (h : env.Sees name b) :
    Accepts inLoop env (load node name) (.of (some b.ty)) env := by
  intro s hs hl
  rw [load, run_get_bind, hs, Environment.sees_iff_find?.1 h]
  exact conclude_accepts _ s hs hl

theorem initialType_accepts {declared : Option Ty} (h : ∀ ty' ∈ declared, ty' = ty) :
    Accepts inLoop env (initialType declared position (some ty)) (some ty) env := by
  cases declared with
  | none => exact .pure
  | some ty' =>
    obtain rfl := h ty' rfl
    rw [initialType, if_neg (not_not.2 rfl)]
    exact .pure

theorem declare_accepts {name : String} {b : Binding} (h : env.Declares name b env') :
    Accepts inLoop env (declare node name b.isConst (some b.ty)) () env' := by
  rw [declare]
  refine .bind (annotate_accepts _) fun s hs _ =>
    ⟨{ s with scopes := env'.chain }, ?_, rfl, rfl, rfl⟩
  have hd : s.scopes.declare name b.declaration = .ok env'.chain :=
    hs ▸ Chain.declare_eq_ok.2 h.adds
  rw [Binding.declaration] at hd
  rw [run_get_bind, hd]
  rfl

theorem assign_accepts {name : String} (h : env.Sees name ⟨false, ty⟩) :
    Accepts inLoop env (assign node name position (some ty)) () env := by
  intro s hs hl
  rw [assign, run_get_bind, hs, Environment.sees_iff_find?.1 h]
  dsimp only [Binding.declaration]
  rw [if_neg (not_not.2 rfl)]
  exact ⟨s, rfl, rfl, rfl, hs⟩

theorem condition_accepts {construct : String} :
    Accepts inLoop env (condition construct position (some .bool)) () env := .pure

theorem loopControl_accepts {keyword : String} :
    Accepts true env (loopControl node keyword) () env := by
  intro s hs hl
  rw [loopControl, run_get_bind, if_neg (Nat.ne_of_gt (hl rfl))]
  exact ⟨s, rfl, rfl, rfl, hs⟩

theorem Accepts.value {e : Expr} (h : Accepts inLoop env (expr e) (.of (some ty)) env) :
    Accepts inLoop env (value e) (some ty) env := .bind h require_accepts

theorem Accepts.test {construct : String} {e : Expr}
    (h : Accepts inLoop env (expr e) (.of (some .bool)) env) :
    Accepts inLoop env (test construct e) () env := .bind h.value condition_accepts

theorem Accepts.introduce {name : String} {b : Binding} {declared : Option Ty} {e : Expr}
    (h : Accepts inLoop env (expr e) (.of (some b.ty)) env)
    (hdeclared : ∀ ty' ∈ declared, ty' = b.ty) (hd : env.Declares name b env') :
    Accepts inLoop env (introduce node name b.isConst declared e) () env' :=
  .bind h.value (.bind (initialType_accepts hdeclared) (declare_accepts hd))

theorem inFrame_accepts {ids : List Nat} (hk : Keeping ids m)
    (hm : Accepts inLoop ([] :: env) m a env') : Accepts inLoop env (inFrame m) a env := by
  intro s hs hl
  obtain ⟨s₁, hrun, herrors, hdepth, -⟩ :=
    hm { s with scopes := s.scopes.push } (by rw [hs]; rfl) hl
  have houter : s₁.scopes.pop = env.chain := (hk.of_run hrun).outer.trans hs
  refine ⟨{ s₁ with scopes := s₁.scopes.pop }, ?_, herrors, hdepth, houter⟩
  have hframe : (inFrame m).run s = Prod.map id
      (fun s₁ : State => { s₁ with scopes := s₁.scopes.pop })
      (m.run { s with scopes := s.scopes.push }) := rfl
  rw [hframe, hrun]
  rfl

theorem atLoopDepth_accepts {change : Nat → Nat} (hm : Accepts inLoop' env m a env')
    (hchange : inLoop' = true → ∀ depth, 0 < change depth) :
    Accepts inLoop env (atLoopDepth change m) a env' := by
  intro s hs _
  obtain ⟨s₁, hrun, herrors, -, hscopes⟩ :=
    hm { s with loopDepth := change s.loopDepth } hs fun h => hchange h _
  refine ⟨{ s₁ with loopDepth := s.loopDepth }, ?_, herrors, rfl, hscopes⟩
  have hdepth : (atLoopDepth change m).run s = Prod.map id
      (fun s₁ : State => { s₁ with loopDepth := s.loopDepth })
      (m.run { s with loopDepth := change s.loopDepth }) := rfl
  rw [hdepth, hrun]
  rfl

end Accepts

theorem stmts_concat (last : Synthesis) (init : List Stmt) (t : Stmt) :
    stmts last (init ++ [t]) = stmts last init >>= fun _ => stmt t := by
  induction init generalizing last with
  | nil =>
    rw [List.nil_append, stmts, stmts, pure_bind]
    simp only [stmts]
    exact bind_pure _
  | cons s rest ih =>
    rw [List.cons_append, stmts, stmts, bind_assoc]
    exact congrArg _ (funext fun a => ih a)

mutual

theorem expr_accepts {env : Environment} {e : Expr} {r : Option Ty} :
    e.Typed env r → ∀ inLoop, Accepts inLoop env (expr e) (.of r) env
  | .int, _ | .float, _ | .bool, _ => by
    rw [expr]
    exact conclude_accepts _
  | .unary h hop, inLoop => by
    rw [expr_unary]
    exact .bind (expr_accepts h inLoop).value (unary_accepts hop)
  | .binary h h' hop, inLoop => by
    rw [expr_binary]
    exact .bind (expr_accepts h inLoop).value
      (.bind (expr_accepts h' inLoop).value (binary_accepts hop))
  | .load hsees, _ => by
    rw [expr]
    exact load_accepts hsees
  | .compound h, inLoop => by
    rw [expr]
    exact .bind (atLoopDepth_accepts (block_accepts h) nofun) (conclude_accepts _)

theorem block_accepts {inLoop : Bool} {env : Environment} {b : Block} {r : Option Ty} :
    b.Typed inLoop env r → Accepts inLoop env (block b) (.of r) env
  | @Block.Typed.value _ _ _ init node e env' r hinit he => by
    obtain ⟨a, hinit', -⟩ := stmts_accepts hinit .noValue
    have hexpr : Accepts inLoop env' (stmt (.expr node e)) (.of r) env' := by
      rw [stmt]
      exact expr_accepts he inLoop
    rw [block]
    exact inFrame_accepts (stmts_keeping _ _) (stmts_concat .. ▸ hinit'.bind hexpr)
  | .noValue hlist hlast => by
    obtain ⟨a, hlist', hnone⟩ := stmts_accepts hlist .noValue
    obtain rfl := hnone (fun _ => rfl) hlast
    rw [block]
    exact inFrame_accepts (stmts_keeping _ _) hlist'

theorem stmt_accepts {inLoop : Bool} {env : Environment} {t : Stmt} {env' : Environment} :
    t.Typed inLoop env env' →
      ∃ a, Accepts inLoop env (stmt t) a env' ∧ ((∀ node e, t ≠ .expr node e) → a = .noValue)
  | .declareZero hd => by
    rw [stmt]
    exact ⟨_, .bind (declare_accepts hd) .pure, fun _ => rfl⟩
  | .declareVar h hdeclared hd => by
    rw [stmt_declareVar]
    exact ⟨_, .bind (.introduce (b := ⟨false, _⟩) (expr_accepts h inLoop) hdeclared hd) .pure,
      fun _ => rfl⟩
  | .declareConst h hdeclared hd => by
    rw [stmt_declareConst]
    exact ⟨_, .bind (.introduce (b := ⟨true, _⟩) (expr_accepts h inLoop) hdeclared hd) .pure,
      fun _ => rfl⟩
  | .assign h hsees => by
    rw [stmt_assign]
    exact ⟨_, .bind (expr_accepts h inLoop).value (.bind (assign_accepts hsees) .pure),
      fun _ => rfl⟩
  | .print h => by
    rw [stmt_print]
    exact ⟨_, .bind (expr_accepts h inLoop).value .pure, fun _ => rfl⟩
  | .ifOnly h hb => by
    rw [stmt_ifOnly]
    exact ⟨_, .bind (expr_accepts h inLoop).test (.bind (block_accepts hb) .pure), fun _ => rfl⟩
  | .ifElse h hb hb' => by
    rw [stmt_ifElse]
    exact ⟨_, .bind (expr_accepts h inLoop).test
      (.bind (block_accepts hb) (.bind (block_accepts hb') .pure)), fun _ => rfl⟩
  | .whileLoop h hb => by
    rw [stmt_whileLoop, (block_keeping _).inLoop_eq]
    exact ⟨_, .bind (expr_accepts h inLoop).test
      (.bind (atLoopDepth_accepts (block_accepts hb) fun _ d => Nat.succ_pos d) .pure),
      fun _ => rfl⟩
  | .breakLoop | .continueLoop => by
    rw [stmt]
    exact ⟨_, .bind loopControl_accepts .pure, fun _ => rfl⟩
  | .expr h => by
    rw [stmt]
    exact ⟨_, expr_accepts h inLoop, fun hno => absurd rfl (hno _ _)⟩

theorem stmts_accepts {inLoop : Bool} {env : Environment} {list : List Stmt} {env' : Environment} :
    Statements.Typed inLoop env list env' → ∀ last, ∃ a,
      Accepts inLoop env (stmts last list) a env' ∧
      ((list = [] → last = .noValue) → (∀ node e, list.getLast? ≠ some (.expr node e)) →
        a = .noValue)
  | .nil, last => by
    rw [stmts]
    exact ⟨last, .pure, fun hlast _ => hlast rfl⟩
  | @Statements.Typed.cons _ _ s _ rest _ hs hrest, last => by
    obtain ⟨a, hs', hnone⟩ := stmt_accepts hs
    obtain ⟨a', hrest', hnone'⟩ := stmts_accepts hrest a
    rw [stmts]
    refine ⟨a', .bind hs' hrest', fun _ hlast => ?_⟩
    cases rest with
    | nil => exact hnone' (fun _ => hnone fun node e h => hlast node e (by rw [h]; rfl)) nofun
    | cons s' rest => exact hnone' nofun hlast

end

end Checker

/-! ## Programs from the parser -/

/-- Checking a program from the parser finds no fault just when the program is well typed. -/
theorem Program.check_errors_eq_nil_iff_typed {tokens : List Token} {file : String} {p : Program}
    (h : Program.ofTokens tokens file = .ok p) : p.check.errors = [] ↔ p.Typed := by
  constructor
  · intro herrors
    obtain ⟨r, -, ht⟩ := Checker.stmts_sound _ none p.check.annotations .initial _ _ rfl {
      quiet := Nat.le_of_eq (congrArg List.length herrors)
      nodup := (Program.numbers_ofTokens h) ▸ List.nodup_range
      notBare := Program.not_bare_ofTokens h
      agrees := fun _ _ => rfl
      typed := .initial }
    obtain ⟨env, -, hends⟩ := Sequence.judged [[]] ht
    exact ⟨env, hends.typed⟩
  · rintro ⟨env, ht⟩
    obtain ⟨a, haccepts, -⟩ := Checker.stmts_accepts ht .noValue
    obtain ⟨s', hrun, herrors, -⟩ := haccepts .initial rfl nofun
    rw [Program.check, hrun]
    exact herrors

/-- A constant, a shadowed name and a loop in a block that has a value. -/
def shadowing : String :=
  "const n = 2; var x = { var n = 0.5; while n < 9.0 { n = n * 2.0; if n == 4.0 { break; } } n; };"

theorem exists_check_errors_eq_nil_iff_typed :
    ∃ tokens p, Token.ofSource shadowing "shadowing" = .ok tokens ∧
      Program.ofTokens tokens "shadowing" = .ok p ∧ p.check.errors = [] ∧ p.Typed := by
  have hclean : ((Token.ofSource shadowing "shadowing").toOption.bind fun tokens =>
      (Program.ofTokens tokens "shadowing").toOption.map fun p => p.check.isClean) = some true := by
    decide +kernel
  obtain ⟨tokens, htokens, hclean⟩ := Option.bind_eq_some_iff.1 hclean
  obtain ⟨p, hp, hclean⟩ := Option.map_eq_some_iff.1 hclean
  have hp := toOption_eq_some.1 hp
  have herrors := List.isEmpty_iff.1 hclean
  exact ⟨tokens, p, toOption_eq_some.1 htokens, hp, herrors,
    (Program.check_errors_eq_nil_iff_typed hp).1 herrors⟩

end Leveret
