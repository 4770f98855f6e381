import Leveret.Eval.Basic
import Leveret.Proofs.Printing.RoundTrip
import Leveret.Proofs.Typing.Exactness

/-!
# Where faults are found

A node begins where the first token that it was read from does. The checker and the evaluator find
their faults where nodes begin, so each of these places is that of a token.
-/

namespace Leveret

/-! ## Where nodes begin -/

/-- The nodes all begin at such places. -/
def Placed (place : Position → Prop) (parts : List Part) : Prop :=
  ∀ part ∈ parts, place part.node.span.start

section Placed

variable {place : Position → Prop} {l l' : List Part}

theorem placed_nil : Placed place [] := List.forall_mem_nil _

theorem placed_append : Placed place (l ++ l') ↔ Placed place l ∧ Placed place l' :=
  List.forall_mem_append

theorem placed_snoc {part : Part} :
    Placed place (l ++ [part]) ↔ Placed place l ∧ place part.node.span.start := by
  rw [placed_append]
  exact and_congr_right fun _ => List.forall_mem_singleton

theorem Placed.expr {e : Expr} (h : Placed place e.parts) : place e.position := by
  refine h (.expr e) ?_
  cases e <;> simp [Expr.parts]

theorem Placed.stmt {s : Stmt} (h : Placed place s.parts) : place s.position := by
  refine h (.stmt s) ?_
  cases s with
  | declareVar node name declared init => cases init <;> simp [Stmt.parts]
  | ifElse node test consequence alternative => cases alternative <;> simp [Stmt.parts]
  | _ => simp [Stmt.parts]

end Placed

namespace Parser

variable {place : Position → Prop} {c d : Cursor}

def Ahead (place : Position → Prop) (c : Cursor) : Prop := ∀ t ∈ c.pending, place t.span.start

theorem Ahead.later (hc : Ahead place c) (h : d.pending <:+ c.pending) : Ahead place d :=
  fun t ht => hc t (h.subset ht)

theorem Ahead.next {t : Token} (hc : Ahead place c) (h : c.Next t d) : place t.span.start :=
  hc t (h.1 ▸ List.mem_cons_self)

theorem Ahead.position {t : Token} (hc : Ahead place c) (hd : d.pending <:+ c.pending)
    (ht : t ∈ d.pending) : place c.position := by
  obtain ⟨t', rest, hp⟩ := List.exists_cons_of_ne_nil (List.ne_nil_of_mem (hd.subset ht))
  rw [Cursor.position, Cursor.current, hp]
  exact hc t' (hp ▸ List.mem_cons_self)

theorem Reads.block_start {b : Block} (h : Reads .block c (.block b) d) (hc : Ahead place c) :
    place b.span.start := by
  cases h with
  | block hn => exact hc.next hn

theorem Reads.placed {g : Goal} {p : Piece} (h : Reads g c p d) (hc : Ahead place c)
    (hg : Placed place g.given) : Placed place p.parts := by
  induction h with
  | literal hn | name hn => exact List.forall_mem_singleton.2 (hc.next hn)
  | signed hn _ _ ih => exact placed_snoc.2 ⟨ih (hc.later hn.suffix) hg, hc.next hn⟩
  | group hn _ _ _ _ ih => exact ih (hc.later hn.suffix) hg
  | compound _ h ih => exact placed_snoc.2 ⟨ih hc hg, h.block_start hc⟩
  | expr h _ ih ih' => exact ih' (hc.later h.suffix) (ih hc placed_nil)
  | stop => exact hg
  | join _ hn _ h _ ih ih' =>
    -- the new node begins where its left operand does
    have hd := hc.later hn.suffix
    exact ih' (hd.later h.suffix)
      (placed_snoc.2 ⟨placed_append.2 ⟨hg, ih hd placed_nil⟩, hg.expr⟩)
  | block hn _ _ _ _ ih => exact ih (hc.later hn.suffix) hg
  | bodyEnd | programEnd => exact placed_nil
  | bodyNext _ _ h _ ih ih' | programNext _ h _ ih ih' =>
    exact placed_append.2 ⟨ih hc hg, ih' (hc.later h.suffix) hg⟩
  | ifOnly hn _ h _ _ ih ih' | whileLoop hn _ h _ ih ih' =>
    have hd := hc.later hn.suffix
    exact placed_snoc.2 ⟨placed_append.2 ⟨ih hd hg, ih' (hd.later h.suffix) hg⟩, hc.next hn⟩
  | ifElse hn _ h h' hn' _ _ _ ih ih' ih'' =>
    have h₁ := hc.later hn.suffix
    have h₂ := h₁.later h.suffix
    have h₃ := h₂.later (hn'.suffix.trans h'.suffix)
    exact placed_snoc.2
      ⟨placed_append.2 ⟨placed_append.2 ⟨ih h₁ hg, ih' h₂ hg⟩, ih'' h₃ hg⟩, hc.next hn⟩
  | ifChain hn _ h h' hn' _ _ _ ih ih' ih'' =>
    have h₁ := hc.later hn.suffix
    have h₂ := h₁.later h.suffix
    have h₃ := h₂.later (hn'.suffix.trans h'.suffix)
    have hnested := placed_append.2 ⟨ih'' h₃ hg, placed_nil⟩
    exact placed_snoc.2
      ⟨placed_append.2 ⟨placed_append.2 ⟨ih h₁ hg, ih' h₂ hg⟩, hnested⟩, hc.next hn⟩
  | varZero hn | breakLoop hn | continueLoop hn => exact List.forall_mem_singleton.2 (hc.next hn)
  | varInit hn _ hname _ hty heq _ _ _ _ ih | const hn _ hname _ hty heq _ _ _ _ ih =>
    have h₁ := hc.later hn.suffix
    have h₂ := h₁.later (heq.suffix.trans (hty.suffix.trans hname.suffix))
    exact placed_snoc.2 ⟨ih h₂ hg, hc.next hn⟩
  | assign hn _ heq _ _ _ _ ih =>
    exact placed_snoc.2 ⟨ih (hc.later (heq.suffix.trans hn.suffix)) hg, hc.next hn⟩
  | print hn _ _ _ _ ih => exact placed_snoc.2 ⟨ih (hc.later hn.suffix) hg, hc.next hn⟩
  | conditional _ _ ih => exact ih hc hg
  | exprStatement _ _ h hn _ ih =>
    exact placed_snoc.2 ⟨ih hc hg, hc.position h.suffix (hn.1 ▸ List.mem_cons_self)⟩

end Parser

theorem Program.placed_ofTokens {tokens : List Token} {file : String} {p : Program}
    (h : Program.ofTokens tokens file = .ok p) {place : Position → Prop}
    (htokens : ∀ t ∈ tokens, place t.span.start) : Placed place p.parts := by
  obtain ⟨d, hreads, -⟩ := Program.ofTokens_eq_ok.1 h
  exact hreads.placed (fun t ht => htokens t (Cursor.mem_of_mem_pending ht)) placed_nil

/-! ## Faults of types -/

namespace Checker

/-- The faults that the step adds are about types, and at such places. -/
def Reports {α : Type} (place : Position → Prop) (m : Checker α) : Prop :=
  ∀ s, ∃ new, (m.run s).2.errors = s.errors ++ new ∧
    ∀ d ∈ new, d.cause.isTypeError = true ∧ place d.position

section Reports

variable {α β : Type} {place : Position → Prop} {m : Checker α} {f : α → Checker β}

theorem Reports.silent (h : ∀ s, (m.run s).2.errors = s.errors) : Reports place m :=
  fun s => ⟨[], by rw [h s, List.append_nil], nofun⟩

theorem Reports.pure (a : α) : Reports place (pure a : Checker α) := .silent fun _ => rfl

theorem Reports.bind (hm : Reports place m) (hf : ∀ a, Reports place (f a)) :
    Reports place (m >>= f) := by
  intro s
  obtain ⟨new, hs, hnew⟩ := hm s
  obtain ⟨new', hs', hnew'⟩ := hf (m.run s).1 (m.run s).2
  refine ⟨new ++ new', ?_, List.forall_mem_append.2 ⟨hnew, hnew'⟩⟩
  exact hs'.trans (by rw [hs, List.append_assoc])

theorem Reports.look {f : State → Checker β} (hf : ∀ s, Reports place (f s)) :
    Reports place (get >>= f) := fun s => hf s s

theorem Reports.one {cause : Cause} {position : Position} (hcause : cause.isTypeError = true)
    (hplace : place position) : Reports place (report cause position) :=
  fun _ => ⟨[⟨cause, position⟩], rfl, List.forall_mem_singleton.2 ⟨hcause, hplace⟩⟩

theorem annotate_reports (id : Nat) (ty : Ty) : Reports place (annotate id ty) :=
  .silent fun _ => rfl

theorem conclude_reports (node : Node) (synthesis : Synthesis) :
    Reports place (conclude node synthesis) := by
  cases synthesis with
  | typed ty => exact .bind (annotate_reports _ _) fun _ => .pure _
  | noValue | poisoned => exact .pure _

theorem inFrame_reports (hm : Reports place m) : Reports place (inFrame m) :=
  fun s => hm { s with scopes := s.scopes.push }

theorem inLoop_reports (hm : Reports place m) : Reports place (inLoop m) :=
  fun s => hm { s with loopDepth := s.loopDepth + 1 }

theorem atLoopDepth_reports {change : Nat → Nat} (hm : Reports place m) :
    Reports place (atLoopDepth change m) :=
  fun s => hm { s with loopDepth := change s.loopDepth }

variable {node : Node} {position : Position}

theorem require_reports (hplace : place position) (synthesis : Synthesis) :
    Reports place (require position synthesis) := by
  cases synthesis with
  | typed ty | poisoned => exact .pure _
  | noValue => exact .bind (.one rfl hplace) fun _ => .pure _

theorem Reports.required {f : Option Ty → Checker β} {m : Checker Synthesis}
    (hm : Reports place m) (hplace : place position) (hf : ∀ ty, Reports place (f ty)) :
    Reports place (do f (← require position (← m))) :=
  .bind hm fun synthesis => .bind (require_reports hplace synthesis) hf

theorem unary_reports (hplace : place node.span.start) (op : UnaryOp) (operand : Option Ty) :
    Reports place (unary node op operand) := by
  unfold unary
  split
  · exact .pure _
  · split
    · exact conclude_reports _ _
    · exact .bind (.one rfl hplace) fun _ => .pure _

theorem binary_reports (hplace : place node.span.start) (op : BinaryOp) (left right : Option Ty) :
    Reports place (binary node op left right) := by
  unfold binary
  split
  · split
    · exact conclude_reports _ _
    · exact .bind (.one rfl hplace) fun _ => .pure _
  · exact .pure _

theorem load_reports (hplace : place node.span.start) (name : String) :
    Reports place (load node name) := by
  unfold load
  refine .look fun s => ?_
  split
  · exact conclude_reports _ _
  · exact .pure _
  · exact .bind (.one rfl hplace) fun _ => .pure _

theorem initialType_reports (hplace : place position) (declared received : Option Ty) :
    Reports place (initialType declared position received) := by
  unfold initialType
  split
  · split
    · exact .bind (.one rfl hplace) fun _ => .pure _
    · exact .pure _
  · exact .pure _
  · exact .pure _

theorem declare_reports (hplace : place node.span.start) (name : String) (isConst : Bool)
    (ty : Option Ty) : Reports place (declare node name isConst ty) := by
  unfold declare
  split
  on_goal 1 => refine .bind (annotate_reports _ _) fun _ => ?_
  all_goals
    -- the state that is looked at is also the one that is set
    intro s
    rw [run_get_bind]
    split
    · exact ⟨[], (List.append_nil _).symm, nofun⟩
    · exact Reports.one rfl hplace s
    · exact Reports.pure () s

theorem assign_reports (hnode : place node.span.start) (hplace : place position) (name : String)
    (received : Option Ty) : Reports place (assign node name position received) := by
  unfold assign
  refine .look fun s => ?_
  split
  · exact .one rfl hnode
  · exact .one rfl hnode
  · split
    · split
      · exact .one rfl hplace
      · exact .pure _
    · exact .pure _

theorem condition_reports (hplace : place position) (construct : String) (received : Option Ty) :
    Reports place (condition construct position received) := by
  unfold condition
  split
  · split
    · exact .one rfl hplace
    · exact .pure _
  · exact .pure _

theorem loopControl_reports (hplace : place node.span.start) (keyword : String) :
    Reports place (loopControl node keyword) := by
  unfold loopControl
  refine .look fun s => ?_
  split
  · exact .one rfl hplace
  · exact .pure _

end Reports

mutual

theorem expr_reports {place : Position → Prop} : (e : Expr) → Placed place e.parts →
    Reports place (expr e)
  | .literal node value, _ => by
    rw [expr]
    exact conclude_reports _ _
  | .unary node op operand, h => by
    obtain ⟨ho, hn⟩ := placed_snoc.1 h
    rw [expr]
    exact .required (expr_reports operand ho) ho.expr fun _ => unary_reports hn _ _
  | .binary node op left right, h => by
    obtain ⟨hparts, hn⟩ := placed_snoc.1 h
    obtain ⟨hl, hr⟩ := placed_append.1 hparts
    rw [expr]
    refine .required (expr_reports left hl) hl.expr fun _ => ?_
    refine .required (expr_reports right hr) hr.expr fun _ => ?_
    exact binary_reports hn _ _ _
  | .load node name, h => by
    rw [expr]
    exact load_reports h.expr _
  | .compound node body, h => by
    rw [expr]
    refine .bind (atLoopDepth_reports (block_reports body (placed_snoc.1 h).1)) fun _ => ?_
    exact conclude_reports _ _

theorem block_reports {place : Position → Prop} : (b : Block) → Placed place b.parts →
    Reports place (block b)
  | ⟨_, statements⟩, h => by
    rw [block]
    exact inFrame_reports (stmts_reports .noValue statements h)

theorem stmt_reports {place : Position → Prop} : (t : Stmt) → Placed place t.parts →
    Reports place (stmt t)
  | .declareVar node name declared none, h => by
    rw [stmt]
    exact .bind (declare_reports h.stmt _ _ _) fun _ => .pure _
  | .declareVar node name declared (some init), h | .declareConst node name declared init, h => by
    obtain ⟨hi, hn⟩ := placed_snoc.1 h
    rw [stmt]
    refine .required (expr_reports init hi) hi.expr fun _ => ?_
    refine .bind (initialType_reports hi.expr _ _) fun _ => ?_
    exact .bind (declare_reports hn _ _ _) fun _ => .pure _
  | .assign node name value, h => by
    obtain ⟨hv, hn⟩ := placed_snoc.1 h
    rw [stmt]
    refine .required (expr_reports value hv) hv.expr fun _ => ?_
    exact .bind (assign_reports hn hv.expr _ _) fun _ => .pure _
  | .print node value, h => by
    have hv := (placed_snoc.1 h).1
    rw [stmt]
    exact .required (expr_reports value hv) hv.expr fun _ => .pure _
  | .ifElse node test consequence none, h => by
    obtain ⟨ht, hb⟩ := placed_append.1 (placed_snoc.1 h).1
    rw [stmt]
    refine .required (expr_reports test ht) ht.expr fun _ => ?_
    refine .bind (condition_reports ht.expr _ _) fun _ => ?_
    exact .bind (block_reports consequence hb) fun _ => .pure _
  | .ifElse node test consequence (some alternative), h => by
    obtain ⟨hparts, hb'⟩ := placed_append.1 (placed_snoc.1 h).1
    obtain ⟨ht, hb⟩ := placed_append.1 hparts
    rw [stmt]
    refine .required (expr_reports test ht) ht.expr fun _ => ?_
    refine .bind (condition_reports ht.expr _ _) fun _ => ?_
    refine .bind (block_reports consequence hb) fun _ => ?_
    exact .bind (block_reports alternative hb') fun _ => .pure _
  | .whileLoop node test body, h => by
    obtain ⟨ht, hb⟩ := placed_append.1 (placed_snoc.1 h).1
    rw [stmt]
    refine .required (expr_reports test ht) ht.expr fun _ => ?_
    refine .bind (condition_reports ht.expr _ _) fun _ => ?_
    exact .bind (inLoop_reports (block_reports body hb)) fun _ => .pure _
  | .breakLoop node, h | .continueLoop node, h => by
    rw [stmt]
    exact .bind (loopControl_reports h.stmt _) fun _ => .pure _
  | .expr node value, h => by
    rw [stmt]
    exact expr_reports value (placed_snoc.1 h).1

theorem stmts_reports {place : Position → Prop} (last : Synthesis) : (list : List Stmt) →
    Placed place (partsAll list) → Reports place (stmts last list)
  | [], _ => by
    rw [stmts]
    exact .pure _
  | t :: rest, h => by
    obtain ⟨ht, hrest⟩ := placed_append.1 h
    rw [stmts]
    exact .bind (stmt_reports t ht) fun _ => stmts_reports _ rest hrest

end

end Checker

/-- All faults that checking finds are about types, and where nodes begin. -/
theorem Program.check_reports {place : Position → Prop} {p : Program} (h : Placed place p.parts) :
    ∀ d ∈ p.check.errors, d.cause.isTypeError = true ∧ place d.position := by
  obtain ⟨new, hnew, hall⟩ := Checker.stmts_reports .noValue p.statements h .initial
  have hnew : p.check.errors = new := hnew
  rwa [hnew]

/-! ## Failures of runs -/

namespace Eval

def FailsAt {α : Type} (place : Position → Prop) (m : Eval α) : Prop :=
  ∀ σ d σ', m.run σ = .error (.failed d) σ' → place d.position

section FailsAt

variable {α β : Type} {place : Position → Prop} {m : Eval α} {f : α → Eval β}
  {position : Position}

theorem FailsAt.never (h : ∀ σ, ∃ a σ', m.run σ = .ok a σ') : FailsAt place m := by
  intro σ d σ' hrun
  obtain ⟨a, σ'', hok⟩ := h σ
  cases hok.symm.trans hrun

theorem FailsAt.pure (a : α) : FailsAt place (pure a : Eval α) := .never fun σ => ⟨a, σ, rfl⟩

theorem FailsAt.bind (hm : FailsAt place m) (hf : ∀ a, FailsAt place (f a)) :
    FailsAt place (m >>= f) := by
  intro σ d σ' hrun
  rw [EStateM.run_bind] at hrun
  cases h : m.run σ with
  | ok a σ'' =>
    rw [h] at hrun
    exact hf a _ _ _ hrun
  | error halt σ'' =>
    rw [h] at hrun
    cases hrun
    exact hm _ _ _ h

theorem FailsAt.look {f : State → Eval β} (hf : ∀ σ, FailsAt place (f σ)) :
    FailsAt place (get >>= f) := fun σ => hf σ σ

theorem FailsAt.tryFinally (hm : FailsAt place m) (change : State → State) :
    FailsAt place (tryFinally m (modify change)) := by
  intro σ d σ' hrun
  rw [run_tryFinally] at hrun
  cases h : m.run σ with
  | ok a σ₁ =>
    rw [h] at hrun
    cases hrun
  | error halt σ₁ =>
    rw [h] at hrun
    cases hrun
    exact hm _ _ _ h

theorem FailsAt.modify (change : State → State) : FailsAt place (modify change : Eval Unit) :=
  .never fun _ => ⟨_, _, rfl⟩

theorem fail_failsAt (hplace : place position) (cause : Cause) :
    FailsAt place (fail position cause : Eval α) := by
  intro σ d σ' hrun
  cases hrun
  exact hplace

theorem lift_failsAt (hplace : place position) (x : Except Cause α) :
    FailsAt place (lift position x) := by
  cases x with
  | ok a => exact .pure a
  | error cause => exact fail_failsAt hplace cause

theorem liftScope_failsAt (hplace : place position) (x : Except ScopeError α) :
    FailsAt place (liftScope position x) := by
  cases x with
  | ok a => exact .pure a
  | error e => exact fail_failsAt hplace _

theorem inFrame_failsAt (hm : FailsAt place m) : FailsAt place (inFrame m) :=
  .bind (.modify _) fun _ => .tryFinally hm _

theorem require_failsAt (hplace : place position) (v : Option Value) :
    FailsAt place (require position v) := by
  cases v with
  | some v => exact .pure v
  | none => exact fail_failsAt hplace _

theorem FailsAt.required {f : Value → Eval β} {m : Eval (Option Value)} (hm : FailsAt place m)
    (hplace : place position) (hf : ∀ v, FailsAt place (f v)) :
    FailsAt place (do f (← require position (← m))) :=
  .bind hm fun v => .bind (require_failsAt hplace v) hf

theorem truth_failsAt (hplace : place position) (v : Value) :
    FailsAt place (truth position v) := by
  cases v with
  | bool b => exact .pure b
  | int _ | float _ => exact fail_failsAt hplace _

theorem load_failsAt (hplace : place position) (name : String) :
    FailsAt place (load position name) := .look fun _ => liftScope_failsAt hplace _

theorem declare_failsAt (hplace : place position) (name : String) (v : Value) :
    FailsAt place (declare position name v) :=
  .look fun _ => .bind (liftScope_failsAt hplace _) fun _ => .modify _

theorem assign_failsAt (hplace : place position) (name : String) (v : Value) :
    FailsAt place (assign position name v) :=
  .look fun _ => .bind (liftScope_failsAt hplace _) fun _ => .modify _

theorem blockValue_failsAt (hplace : place position) (c : Completion) :
    FailsAt place (blockValue position c) := by
  cases c with
  | value v => exact .pure v
  | breaking | continuing => exact fail_failsAt hplace _

theorem loop_failsAt {condition : Eval Bool} {body : Eval Completion}
    (hcondition : FailsAt place condition) (hbody : FailsAt place body) (limit : Nat) :
    FailsAt place (loop condition body limit) := by
  induction limit with
  | zero =>
    intro σ d σ' hrun
    cases hrun
  | succ limit ih =>
    rw [loop]
    refine .bind hcondition fun b => ?_
    cases b with
    | false => exact .pure ()
    | true =>
      refine .bind hbody fun c => ?_
      cases c with
      | breaking => exact .pure ()
      | value v | continuing => exact ih

end FailsAt

mutual

theorem expr_failsAt {place : Position → Prop} (limit : Nat) : (e : Expr) →
    Placed place e.parts → FailsAt place (expr limit e)
  | .literal node value, _ => by
    rw [expr]
    exact .pure _
  | .unary node op operand, h => by
    obtain ⟨ho, hn⟩ := placed_snoc.1 h
    rw [expr]
    exact .required (expr_failsAt limit operand ho) ho.expr fun _ => lift_failsAt hn _
  | .binary node op left right, h => by
    obtain ⟨hparts, hn⟩ := placed_snoc.1 h
    obtain ⟨hl, hr⟩ := placed_append.1 hparts
    rw [expr]
    refine .required (expr_failsAt limit left hl) hl.expr fun _ => ?_
    exact .required (expr_failsAt limit right hr) hr.expr fun _ => lift_failsAt hn _
  | .load node name, h => by
    rw [expr]
    exact .bind (load_failsAt h.expr _) fun _ => .pure _
  | .compound node body, h => by
    obtain ⟨hb, hn⟩ := placed_snoc.1 h
    rw [expr]
    exact .bind (block_failsAt limit body hb) fun _ => blockValue_failsAt hn _

theorem block_failsAt {place : Position → Prop} (limit : Nat) : (b : Block) →
    Placed place b.parts → FailsAt place (block limit b)
  | ⟨_, statements⟩, h => by
    rw [block]
    exact inFrame_failsAt (stmts_failsAt limit none statements h)

theorem stmt_failsAt {place : Position → Prop} (limit : Nat) : (t : Stmt) →
    Placed place t.parts → FailsAt place (stmt limit t)
  | .declareVar node name none none, h => by
    rw [stmt]
    exact fail_failsAt h.stmt _
  | .declareVar node name (some ty) none, h => by
    rw [stmt]
    exact .bind (declare_failsAt h.stmt _ _) fun _ => .pure _
  | .declareVar node name declared (some init), h | .declareConst node name declared init, h => by
    obtain ⟨hi, hn⟩ := placed_snoc.1 h
    rw [stmt]
    refine .required (expr_failsAt limit init hi) hi.expr fun _ => ?_
    exact .bind (declare_failsAt hn _ _) fun _ => .pure _
  | .assign node name value, h => by
    obtain ⟨hv, hn⟩ := placed_snoc.1 h
    rw [stmt]
    refine .required (expr_failsAt limit value hv) hv.expr fun _ => ?_
    exact .bind (assign_failsAt hn _ _) fun _ => .pure _
  | .print node value, h => by
    have hv := (placed_snoc.1 h).1
    rw [stmt]
    refine .required (expr_failsAt limit value hv) hv.expr fun _ => ?_
    exact .bind (.modify _) fun _ => .pure _
  | .ifElse node test consequence none, h => by
    obtain ⟨ht, hb⟩ := placed_append.1 (placed_snoc.1 h).1
    rw [stmt]
    refine .required (expr_failsAt limit test ht) ht.expr fun _ => ?_
    refine .bind (truth_failsAt ht.expr _) fun b => ?_
    cases b with
    | true => exact .bind (block_failsAt limit consequence hb) fun _ => .pure _
    | false => exact .pure _
  | .ifElse node test consequence (some alternative), h => by
    obtain ⟨hparts, hb'⟩ := placed_append.1 (placed_snoc.1 h).1
    obtain ⟨ht, hb⟩ := placed_append.1 hparts
    rw [stmt]
    refine .required (expr_failsAt limit test ht) ht.expr fun _ => ?_
    refine .bind (truth_failsAt ht.expr _) fun b => ?_
    cases b with
    | true => exact .bind (block_failsAt limit consequence hb) fun _ => .pure _
    | false => exact .bind (block_failsAt limit alternative hb') fun _ => .pure _
  | .whileLoop node test body, h => by
    obtain ⟨ht, hb⟩ := placed_append.1 (placed_snoc.1 h).1
    rw [stmt]
    refine .bind (loop_failsAt ?_ (block_failsAt limit body hb) limit) fun _ => .pure _
    exact .required (expr_failsAt limit test ht) ht.expr fun _ => truth_failsAt ht.expr _
  | .breakLoop node, _ | .continueLoop node, _ => by
    rw [stmt]
    exact .pure _
  | .expr node value, h => by
    rw [stmt]
    exact .bind (expr_failsAt limit value (placed_snoc.1 h).1) fun _ => .pure _

theorem stmts_failsAt {place : Position → Prop} (limit : Nat) (last : Option Value) :
    (list : List Stmt) → Placed place (partsAll list) → FailsAt place (stmts limit last list)
  | [], _ => by
    rw [stmts]
    exact .pure _
  | t :: rest, h => by
    obtain ⟨ht, hrest⟩ := placed_append.1 h
    rw [stmts]
    refine .bind (stmt_failsAt limit t ht) fun c => ?_
    cases c with
    | value v => exact stmts_failsAt limit v rest hrest
    | breaking | continuing => exact .pure _

end

theorem program_failsAt {place : Position → Prop} (limit : Nat) {list : List Stmt}
    (h : Placed place (partsAll list)) : FailsAt place (program limit list) := by
  induction list with
  | nil => exact .pure ()
  | cons t rest ih =>
    obtain ⟨ht, hrest⟩ := placed_append.1 h
    rw [program]
    refine .bind (stmt_failsAt limit t ht) fun c => ?_
    cases c with
    | value v => exact ih hrest
    | breaking | continuing => exact fail_failsAt ht.stmt _

end Eval

theorem Program.run_failsAt {place : Position → Prop} {p : Program} {limit : Nat} {d : Diagnostic}
    (h : Placed place p.parts) (hrun : (p.run limit).halt = some (.failed d)) :
    place d.position := by
  rw [Program.run] at hrun
  split at hrun
  · cases hrun
  · rename_i hfailed
    cases hrun
    exact Eval.program_failsAt limit h _ _ _ hfailed

end Leveret
