import Leveret.Proofs.Parsing.Outcomes

/-!
# What a parser decides by

A parser decides by the tokens up to the one it stands at. As long as it has not come to `rest`, it
does the same when something else stands there, and so a fault that it finds before `rest` is a
fault whatever follows. The budget does not count, if there is enough of it for the tokens in front
of `rest`.
-/

namespace Leveret.Parser

variable {α β : Type} {rest rest' : List Token} {n m k : Nat} {c c' d : Cursor}

/-! ## Two cursors side by side -/

def Before (rest : List Token) (c : Cursor) : Prop := rest.length < c.pending.length

/-- The same tokens, at most `n`, are ahead of both cursors up to `rest` and to `rest'`. -/
structure Shared (rest rest' : List Token) (n : Nat) (c c' : Cursor) : Prop where
  ahead : ∃ tokens, tokens.length ≤ n ∧ c.pending = tokens ++ rest ∧ c'.pending = tokens ++ rest'
  previousEnd : c'.previousEnd = c.previousEnd
  nextId : c'.nextId = c.nextId

theorem Before.of_onward (h : Before rest d) (hd : c.Onward d) : Before rest c :=
  Nat.lt_of_lt_of_le h hd.length

theorem Shared.mono (h : Shared rest rest' n c c') (hm : n ≤ m) : Shared rest rest' m c c' := by
  obtain ⟨tokens, hlen, hc, hc'⟩ := h.ahead
  exact ⟨⟨tokens, Nat.le_trans hlen hm, hc, hc'⟩, h.previousEnd, h.nextId⟩

theorem Shared.exists_cons (h : Shared rest rest' n c c') (hb : Before rest c) :
    ∃ t tokens, tokens.length + 1 ≤ n ∧ c.pending = t :: (tokens ++ rest) ∧
      c'.pending = t :: (tokens ++ rest') := by
  obtain ⟨tokens, hlen, hc, hc'⟩ := h.ahead
  cases tokens with
  | nil =>
    unfold Before at hb
    simp [hc] at hb
  | cons t tokens => exact ⟨t, tokens, hlen, hc, hc'⟩

theorem Shared.current (h : Shared rest rest' n c c') (hb : Before rest c) :
    c'.current = c.current := by
  obtain ⟨t, tokens, -, hc, hc'⟩ := h.exists_cons hb
  unfold Cursor.current
  rw [hc, hc']
  rfl

theorem Shared.advance (h : Shared rest rest' n c c') (hb : Before rest c) :
    Shared rest rest' (n - 1) c.advance c'.advance := by
  obtain ⟨t, tokens, hlen, hc, hc'⟩ := h.exists_cons hb
  unfold Cursor.advance
  rw [hc, hc']
  exact ⟨⟨tokens, by omega, rfl, rfl⟩, rfl, h.nextId⟩

theorem Shared.nextKind (h : Shared rest rest' n c c') (hb : Before rest c) :
    c'.nextKind = c.nextKind ∨ c.pending.length = rest.length + 1 := by
  obtain ⟨t, tokens, -, hc, hc'⟩ := h.exists_cons hb
  cases tokens with
  | nil =>
    right
    simp [hc]
  | cons t' tokens =>
    left
    unfold Cursor.nextKind
    rw [hc, hc']
    rfl

/-! ## Two parsers side by side -/

/-- `result` is what `q` comes to beside `c`, unless `c` has come to `rest`. -/
def Beside (rest rest' : List Token) (n : Nat) (q : Parser α) (c : Cursor)
    (result : EStateM.Result Diagnostic Cursor α) : Prop :=
  Before rest c → ∃ c', Shared rest rest' n c c' ∧ result = q.run c'

/-- If `p` ends before `rest`, then beside it `q` ends in the same way. -/
def LocalAt (rest rest' : List Token) (n m : Nat) (p q : Parser α) (c : Cursor) : Prop :=
  ∀ result, Beside rest rest' n q c result → Outcome p c
    (fun a d => c.Onward d ∧
      (Before rest d → ∃ d', result = .ok a d' ∧ Shared rest rest' m d d'))
    fun _ d => c.Onward d ∧ (Before rest d → ∃ e d', result = .error e d')

/-- Wherever they are run side by side. At first at most `n` tokens are ahead, and then `m`. -/
def Local (rest rest' : List Token) (n m : Nat) (p q : Parser α) : Prop :=
  ∀ c, LocalAt rest rest' n m p q c

namespace Local

theorem mono {p q : Parser α} {n' m' : Nat} (h : Local rest rest' n m p q) (hn : n' ≤ n)
    (hm : m ≤ m') : Local rest rest' n' m' p q := by
  intro c result hr
  have hr' : Beside rest rest' n q c result := by
    intro hb
    obtain ⟨c', hs, hrun⟩ := hr hb
    exact ⟨c', hs.mono hn, hrun⟩
  refine (h c result hr').mono (fun a d ⟨hd, hok⟩ => ⟨hd, fun hb => ?_⟩) fun _ _ hd => hd
  obtain ⟨d', hrun, hs⟩ := hok hb
  exact ⟨d', hrun, hs.mono hm⟩

theorem of_forward {p q : Parser α} (h : Forward p) : Local rest rest' 0 m p q := by
  intro c result hr
  have hnot (d : Cursor) (hd : c.Onward d) : ¬ Before rest d := by
    intro hb
    have hb := hb.of_onward hd
    obtain ⟨c', hs, -⟩ := hr hb
    obtain ⟨t, tokens, hlen, -⟩ := hs.exists_cons hb
    omega
  exact (h c).mono (fun a d hd => ⟨hd, fun hb => absurd hb (hnot d hd)⟩)
    fun e d hd => ⟨hd, fun hb => absurd hb (hnot d hd)⟩

theorem pure (a : α) : Local rest rest' n n (pure a) (pure a) := by
  intro c result hr
  refine .pure ⟨.refl, fun hb => ?_⟩
  obtain ⟨c', hs, rfl⟩ := hr hb
  exact ⟨c', rfl, hs⟩

theorem throw (e e' : Diagnostic) :
    Local rest rest' n m (throw e : Parser α) (throw e') := by
  intro c result hr
  refine .throw ⟨.refl, fun hb => ?_⟩
  obtain ⟨c', hs, rfl⟩ := hr hb
  exact ⟨e', c', rfl⟩

theorem bind {p q : Parser α} {f g : α → Parser β} (h : Local rest rest' n m p q)
    (hf : ∀ a, Local rest rest' m k (f a) (g a)) : Local rest rest' n k (p >>= f) (q >>= g) := by
  intro c result hr
  -- what `q` comes to beside `p`; the two need not have anything to do with each other at `rest`
  obtain ⟨result', hr', hresult⟩ : ∃ result', Beside rest rest' n q c result' ∧
      (Before rest c → ∃ c', result' = q.run c' ∧ result = (q >>= g).run c') := by
    by_cases hb : Before rest c
    · obtain ⟨c', hs, hrun⟩ := hr hb
      exact ⟨q.run c', fun _ => ⟨c', hs, rfl⟩, fun _ => ⟨c', rfl, hrun⟩⟩
    · exact ⟨q.run c, fun h => absurd h hb, fun h => absurd h hb⟩
  refine .bind ((h c result' hr').mono (fun a d ⟨hd, hok⟩ => ?_) fun e d ⟨hd, hbad⟩ => ?_)
  · have hnext : Beside rest rest' m (g a) d result := by
      intro hb
      obtain ⟨c', hq, hrun⟩ := hresult (hb.of_onward hd)
      obtain ⟨d', hok, hs⟩ := hok hb
      exact ⟨d', hs, hrun.trans (run_bind_of_ok (hq.symm.trans hok))⟩
    exact (hf a d result hnext).mono (fun b e he => ⟨hd.trans he.1, he.2⟩)
      fun _ e he => ⟨hd.trans he.1, he.2⟩
  · refine ⟨hd, fun hb => ?_⟩
    obtain ⟨c', hq, hrun⟩ := hresult (hb.of_onward hd)
    obtain ⟨e', d', hbad⟩ := hbad hb
    exact ⟨e', d', hrun.trans (run_bind_of_error (hq.symm.trans hbad))⟩

theorem lookAt {f g : Cursor → Parser α} (h : ∀ c c', c'.current = c.current →
      c'.previousEnd = c.previousEnd →
      c'.nextKind = c.nextKind ∨ c.pending.length = rest.length + 1 →
      LocalAt rest rest' n m (f c) (g c') c) :
    Local rest rest' n m (get >>= f) (get >>= g) := by
  intro c result hr
  by_cases hb : Before rest c
  · obtain ⟨c', hs, rfl⟩ := hr hb
    refine .look (h c c' (hs.current hb) hs.previousEnd (hs.nextKind hb) _ fun _ => ?_)
    exact ⟨c', hs, rfl⟩
  · exact .look (h c c rfl rfl (.inl rfl) result fun hb' => absurd hb' hb)

theorem look {f g : Cursor → Parser α} (h : ∀ c c', c'.current = c.current →
      c'.previousEnd = c.previousEnd → Local rest rest' n m (f c) (g c')) :
    Local rest rest' n m (get >>= f) (get >>= g) :=
  .lookAt fun c c' hcurrent hend _ => h c c' hcurrent hend c

end Local

/-! ## Steps -/

theorem local_advance : Local rest rest' n (n - 1) advance advance := by
  intro c result hr
  refine .of_ok (advance_run c) ⟨.advance, fun hb => ?_⟩
  have hb := hb.of_onward .advance
  obtain ⟨c', hs, rfl⟩ := hr hb
  refine ⟨c'.advance, ?_, hs.advance hb⟩
  rw [advance_run, hs.current hb]

theorem local_freshNode (span : Span) :
    Local rest rest' n n (freshNode span) (freshNode span) := by
  intro c result hr
  refine .of_ok (freshNode_run span c) ⟨.tick, fun hb => ?_⟩
  obtain ⟨c', hs, rfl⟩ := hr hb
  refine ⟨c'.tick, ?_, hs.ahead, hs.previousEnd, congrArg (· + 1) hs.nextId⟩
  rw [freshNode_run, hs.nextId]

theorem local_closeNode (start : Position) :
    Local rest rest' n n (closeNode start) (closeNode start) := by
  refine .look fun c c' _ hend => ?_
  rw [hend]
  exact local_freshNode _

theorem local_unexpected : Local rest rest' n m (unexpected : Parser α) unexpected :=
  .look fun _ _ _ _ => .throw _ _

theorem local_failHere (message : String) :
    Local rest rest' n m (failHere message : Parser α) (failHere message) :=
  .look fun _ _ _ _ => .throw _ _

theorem kind_eq_of_current (h : c'.current = c.current) : c'.kind = c.kind := by
  unfold Cursor.kind
  rw [h]

theorem local_expect (kind : Kind) : Local rest rest' n (n - 1) (expect kind) (expect kind) := by
  refine .look fun c c' hcurrent _ => ?_
  rw [kind_eq_of_current hcurrent]
  split
  · exact local_advance
  · exact local_unexpected

theorem local_expectDetailed (kind : Kind) (message : String) :
    Local rest rest' n (n - 1) (expectDetailed kind message) (expectDetailed kind message) := by
  refine .look fun c c' hcurrent _ => ?_
  rw [kind_eq_of_current hcurrent]
  split
  · exact local_advance
  · exact local_failHere _

theorem local_closing (start : Position) (make : Node → Stmt) :
    Local rest rest' n n (do let _ ← expect .semicolon; return make (← closeNode start))
      (do let _ ← expect .semicolon; return make (← closeNode start)) :=
  .bind ((local_expect _).mono (Nat.le_refl _) (Nat.sub_le _ _)) fun _ =>
    .bind (local_closeNode _) fun _ => .pure _

/-! ## Expressions -/

theorem local_leaf (make : Node → Expr) :
    Local rest rest' n (n - 1) (leaf make) (leaf make) :=
  .bind local_advance fun _ => .bind (local_freshNode _) fun _ => .pure _

theorem local_number (token : Token) (value : Option Value) :
    Local rest rest' n (n - 1) (number token value) (number token value) := by
  cases value with
  | none => exact .throw _ _
  | some v => exact local_leaf _

theorem local_primary : Local rest rest' n (n - 1) primary primary := by
  refine .look fun c c' hcurrent _ => ?_
  dsimp only
  rw [hcurrent]
  split
  case h_1 | h_2 => exact local_number _ _
  case h_3 | h_4 | h_5 => exact local_leaf _
  case h_6 => exact local_unexpected

section Constructs

variable {expr expr' : Power → Parser Expr} {block block' : Parser Block}
  {conditional conditional' : Parser Stmt}

theorem local_signed (hexpr : ∀ power, Local rest rest' (n - 1) (n - 1) (expr power) (expr' power)) :
    Local rest rest' n (n - 1) (signed expr) (signed expr') := by
  refine .bind local_advance fun t => ?_
  split
  · exact .throw _ _
  · exact .bind (hexpr _) fun e => .bind (local_freshNode _) fun _ => .pure _

theorem local_grouping
    (hexpr : ∀ power, Local rest rest' (n - 1) (n - 1) (expr power) (expr' power)) :
    Local rest rest' n (n - 1) (grouping expr) (grouping expr') := by
  refine .bind (local_expect _) fun _ => .bind (hexpr _) fun e => ?_
  exact .bind ((local_expect _).mono (Nat.le_refl _) (Nat.sub_le _ _)) fun _ => .pure _

theorem local_compound (hblock : Local rest rest' n (n - 1) block block') :
    Local rest rest' n (n - 1) (compound block) (compound block') :=
  .bind hblock fun _ => .bind (local_freshNode _) fun _ => .pure _

theorem local_operand
    (hexpr : ∀ power, Local rest rest' (n - 1) (n - 1) (expr power) (expr' power))
    (hblock : Local rest rest' n (n - 1) block block') :
    Local rest rest' n (n - 1) (operand expr block) (operand expr' block') := by
  refine .look fun c c' hcurrent _ => ?_
  rw [kind_eq_of_current hcurrent]
  generalize c.kind = kind
  split
  case h_1 | h_2 | h_3 | h_4 | h_5 => exact local_primary
  case h_6 | h_7 => exact local_signed hexpr
  case h_8 => exact local_grouping hexpr
  case h_9 => exact local_compound hblock
  case h_10 =>
    split
    · exact local_failHere _
    · exact local_unexpected

theorem local_binary (left : Expr) (power : Power)
    (hexpr : ∀ power, Local rest rest' (n - 1) (n - 1) (expr power) (expr' power)) :
    Local rest rest' n (n - 1) (binary expr left power) (binary expr' left power) := by
  refine .bind local_advance fun t => ?_
  split
  · exact .throw _ _
  · exact .bind (hexpr _) fun e => .bind (local_freshNode _) fun _ => .pure _

/-! ## Statements -/

theorem local_typeName? : Local rest rest' n n typeName? typeName? := by
  refine .look fun c c' hcurrent _ => ?_
  rw [kind_eq_of_current hcurrent]
  split
  · refine .bind (local_advance.mono (Nat.le_refl _) (Nat.sub_le _ _)) fun t => ?_
    split
    · exact .pure _
    · exact .throw _ _
  · exact .pure _

theorem local_initializer? {p q : Parser Expr} (h : Local rest rest' n n p q) :
    Local rest rest' n n (initializer? p) (initializer? q) := by
  refine .look fun c c' hcurrent _ => ?_
  rw [kind_eq_of_current hcurrent]
  split
  · refine .bind (local_advance.mono (Nat.le_refl _) (Nat.sub_le _ _)) fun _ => ?_
    exact .bind h fun _ => .pure _
  · exact .pure _

section Statements

variable {p q : Parser Expr} (hexpr : Local rest rest' (n - 1) (n - 1) p q)
include hexpr

theorem local_varDeclaration :
    Local rest rest' n (n - 1) (varDeclaration p) (varDeclaration q) := by
  refine .bind local_advance fun _ => .bind ((local_expectDetailed _ _).mono (Nat.le_refl _)
    (Nat.sub_le _ _)) fun _ => ?_
  refine .bind local_typeName? fun _ => .bind (local_initializer? hexpr) fun _ => ?_
  dsimp only
  split
  · exact .bind (local_failHere _) fun _ => local_closing _ _
  · exact local_closing _ _

theorem local_constDeclaration :
    Local rest rest' n (n - 1) (constDeclaration p) (constDeclaration q) := by
  refine .bind local_advance fun _ => .bind ((local_expectDetailed _ _).mono (Nat.le_refl _)
    (Nat.sub_le _ _)) fun _ => ?_
  refine .bind local_typeName? fun _ => .bind (local_initializer? hexpr) fun init => ?_
  cases init with
  | none => exact local_failHere _
  | some e => exact local_closing _ _

theorem local_assignment : Local rest rest' n (n - 1) (assignment p) (assignment q) := by
  refine .bind (local_expect _) fun _ => .bind ((local_expect _).mono (Nat.le_refl _)
    (Nat.sub_le _ _)) fun _ => ?_
  exact .bind hexpr fun _ => local_closing _ _

theorem local_printing : Local rest rest' n (n - 1) (printing p) (printing q) :=
  .bind local_advance fun _ => .bind hexpr fun _ => local_closing _ _

theorem local_ifElse (hblock : Local rest rest' (n - 1) (n - 1) block block')
    (hcond : Local rest rest' (n - 1) (n - 1) conditional conditional') :
    Local rest rest' n (n - 1) (ifElse p block conditional) (ifElse q block' conditional') := by
  refine .bind local_advance fun _ => .bind hexpr fun _ => .bind hblock fun _ => ?_
  refine .look fun c c' hcurrent _ => ?_
  rw [kind_eq_of_current hcurrent]
  split
  · refine .bind (local_advance.mono (Nat.le_refl _) (Nat.sub_le _ _)) fun _ => ?_
    refine .bind ?_ fun _ => .bind (.pure _) fun _ => .bind (local_closeNode _) fun _ => .pure _
    refine .look fun d d' hcurrent' _ => ?_
    rw [kind_eq_of_current hcurrent']
    split
    · exact .bind hcond fun _ => .pure _
    · exact hblock
  · exact .bind (.pure _) fun _ => .bind (local_closeNode _) fun _ => .pure _

theorem local_whileLoop (hblock : Local rest rest' (n - 1) (n - 1) block block') :
    Local rest rest' n (n - 1) (whileLoop p block) (whileLoop q block') :=
  .bind local_advance fun _ => .bind hexpr fun _ => .bind hblock fun _ =>
    .bind (local_closeNode _) fun _ => .pure _

end Statements

theorem local_loopControl : Local rest rest' n (n - 1) loopControl loopControl := by
  refine .bind local_advance fun _ => .bind ((local_expect _).mono (Nat.le_refl _)
    (Nat.sub_le _ _)) fun _ => ?_
  exact .bind (local_closeNode _) fun _ => .pure _

theorem local_exprStatement {p q : Parser Expr} (hexpr : Local rest rest' n (n - 1) p q) :
    Local rest rest' n (n - 1) (exprStatement p) (exprStatement q) := by
  refine .look fun c c' hcurrent _ => ?_
  have hposition : c'.position = c.position := congrArg (·.span.start) hcurrent
  rw [hposition]
  exact .bind hexpr fun _ => local_closing _ _

theorem local_braced {body body' : Parser (List Stmt)}
    (hbody : Local rest rest' (n - 1) (n - 1) body body') :
    Local rest rest' n (n - 1) (braced body) (braced body') := by
  refine .bind (local_expect _) fun _ => .bind hbody fun _ => ?_
  refine .bind ((local_expect _).mono (Nat.le_refl _) (Nat.sub_le _ _)) fun _ => ?_
  refine .look fun c c' _ hend => ?_
  rw [hend]
  exact .pure _

/-! ### A statement that begins with a name -/

/-- However the parser ends, it has stepped over the current token. -/
def Past (p : Parser α) (c : Cursor) : Prop :=
  Outcome p c (fun _ d => c.Onward d ∧ d.pending.length < c.pending.length)
    fun _ d => c.Onward d ∧ d.pending.length < c.pending.length

theorem Past.bind {p : Parser α} {f : α → Parser β} (h : Past p c) (hf : ∀ a, Forward (f a)) :
    Past (p >>= f) c := by
  refine Outcome.bind (h.mono (fun a d ⟨hd, hlt⟩ => ?_) fun _ _ hd => hd)
  exact (hf a d).mono (fun _ _ he => ⟨hd.trans he, Nat.lt_of_le_of_lt he.length hlt⟩)
    fun _ _ he => ⟨hd.trans he, Nat.lt_of_le_of_lt he.length hlt⟩

theorem past_advance (hc : c.pending ≠ []) : Past advance c := by
  refine .of_ok (advance_run c) ⟨.advance, ?_⟩
  obtain ⟨t, tokens, hc⟩ := List.exists_cons_of_ne_nil hc
  simp [Cursor.advance, hc]

theorem past_operand (hk : c.kind = .identifier) (hc : c.pending ≠ []) :
    Past (operand expr block) c := by
  refine .look ?_
  rw [hk]
  refine .look ?_
  have hk' : c.current.kind = .identifier := hk
  dsimp only
  rw [hk']
  exact (past_advance hc).bind fun _ => .bind (forward_freshNode _) fun _ => .pure _

theorem past_assignment {p : Parser Expr} (hp : Forward p) (hk : c.kind = .identifier)
    (hc : c.pending ≠ []) : Past (assignment p) c := by
  have hexpect : Past (expect .identifier) c := by
    refine .look ?_
    rw [if_pos hk]
    exact past_advance hc
  exact hexpect.bind fun _ => .bind (forward_expect _) fun _ => .bind hp fun _ =>
    forward_closing _ _

theorem LocalAt.of_past {p q : Parser α} (h : Past p c)
    (hlen : c.pending.length = rest.length + 1) : LocalAt rest rest' n m p q c := by
  intro result _
  have hnot (d : Cursor) (hd : d.pending.length < c.pending.length) : ¬ Before rest d := by
    unfold Before
    omega
  exact h.mono (fun _ d hd => ⟨hd.1, fun hb => absurd hb (hnot d hd.2)⟩)
    fun _ d hd => ⟨hd.1, fun hb => absurd hb (hnot d hd.2)⟩

theorem local_statement {p q : Parser Expr} (hexpr : Local rest rest' n (n - 1) p q)
    (hforward : Forward p) (hpast : ∀ c, c.kind = .identifier → c.pending ≠ [] → Past p c)
    (hblock : Local rest rest' (n - 1) (n - 1) block block')
    (hcond : Local rest rest' n (n - 1) conditional conditional') :
    Local rest rest' n (n - 1) (statement p block conditional)
      (statement q block' conditional') := by
  have hexpr' := hexpr.mono (Nat.sub_le n 1) (Nat.le_refl _)
  refine .lookAt fun c c' hcurrent _ hnext => ?_
  rw [kind_eq_of_current hcurrent]
  generalize hk : c.kind = kind
  split
  case h_1 => exact local_varDeclaration hexpr' c
  case h_2 => exact local_constDeclaration hexpr' c
  case h_3 => exact local_printing hexpr' c
  case h_4 => exact hcond c
  case h_5 => exact local_whileLoop hexpr' hblock c
  case h_6 | h_7 => exact local_loopControl c
  case h_8 =>
    rcases hnext with hnext | hlast
    · rw [hnext]
      split
      · exact local_assignment hexpr' c
      · exact local_exprStatement hexpr c
    · -- what follows the name may differ, but either way the name is stepped over
      have hc : c.pending ≠ [] := by
        intro hnil
        simp [hnil] at hlast
      refine .of_past ?_ hlast
      split
      · exact past_assignment hforward hk hc
      · exact .look ((hpast c hk hc).bind fun _ => forward_closing _ _)
  case h_9 => exact local_exprStatement hexpr c

end Constructs

/-! ## The whole grammar -/

/-- The parsers of the grammar do the same with the budgets `fuel` and `fuel'`, if both are enough
for the tokens ahead. -/
structure AllLocal (rest rest' : List Token) (fuel fuel' : Nat) : Prop where
  expr (n : Nat) (power : Power) : 8 * n ≤ fuel + 5 → 8 * n ≤ fuel' + 5 →
    Local rest rest' n (n - 1) (Parser.expr fuel power) (Parser.expr fuel' power)
  extend (n : Nat) (power : Power) (left : Expr) : 8 * n ≤ fuel + 6 → 8 * n ≤ fuel' + 6 →
    Local rest rest' n n (Parser.extend fuel power left) (Parser.extend fuel' power left)
  block (n : Nat) : 8 * n ≤ fuel + 7 → 8 * n ≤ fuel' + 7 →
    Local rest rest' n (n - 1) (Parser.block fuel) (Parser.block fuel')
  body (n : Nat) : 8 * n ≤ fuel + 3 → 8 * n ≤ fuel' + 3 →
    Local rest rest' n n (blockStatements fuel) (blockStatements fuel')
  conditional (n : Nat) : 8 * n ≤ fuel + 6 → 8 * n ≤ fuel' + 6 →
    Local rest rest' n (n - 1) (Parser.conditional fuel) (Parser.conditional fuel')
  stmt (n : Nat) : 8 * n ≤ fuel + 4 → 8 * n ≤ fuel' + 4 →
    Local rest rest' n (n - 1) (Parser.stmt fuel) (Parser.stmt fuel')

theorem allLocal_of_zero {fuel fuel' : Nat} (h : fuel = 0 ∨ fuel' = 0) :
    AllLocal rest rest' fuel fuel' := by
  have hf := allForward fuel
  constructor
  · intro n power _ _
    obtain rfl : n = 0 := by omega
    exact .of_forward (hf.expr power)
  · intro n power left _ _
    obtain rfl : n = 0 := by omega
    exact .of_forward (hf.extend power left)
  · intro n _ _
    obtain rfl : n = 0 := by omega
    exact .of_forward hf.block
  · intro n _ _
    obtain rfl : n = 0 := by omega
    exact .of_forward hf.body
  · intro n _ _
    obtain rfl : n = 0 := by omega
    exact .of_forward hf.conditional
  · intro n _ _
    obtain rfl : n = 0 := by omega
    exact .of_forward hf.stmt

section Step

variable {fuel fuel' : Nat} (ih : AllLocal rest rest' fuel fuel')
include ih

theorem local_expr (power : Power) (h : 8 * n ≤ fuel + 6) (h' : 8 * n ≤ fuel' + 6) :
    Local rest rest' n (n - 1) (Parser.expr (fuel + 1) power)
      (Parser.expr (fuel' + 1) power) := by
  have hexpr (power : Power) := (ih.expr (n - 1) power (by omega) (by omega)).mono
    (Nat.le_refl _) (Nat.sub_le _ _)
  refine .bind (local_operand hexpr (ih.block n (by omega) (by omega))) fun left => ?_
  exact ih.extend (n - 1) power left (by omega) (by omega)

theorem local_extend (power : Power) (left : Expr) (h : 8 * n ≤ fuel + 7)
    (h' : 8 * n ≤ fuel' + 7) :
    Local rest rest' n n (Parser.extend (fuel + 1) power left)
      (Parser.extend (fuel' + 1) power left) := by
  have hexpr (power : Power) := (ih.expr (n - 1) power (by omega) (by omega)).mono
    (Nat.le_refl _) (Nat.sub_le _ _)
  refine .look fun c c' hcurrent _ => ?_
  rw [kind_eq_of_current hcurrent]
  dsimp only
  split
  · refine .bind (local_binary left _ hexpr) fun more => ?_
    exact (ih.extend (n - 1) power more (by omega) (by omega)).mono (Nat.le_refl _)
      (Nat.sub_le _ _)
  · exact .pure _

theorem local_blockStatements (h : 8 * n ≤ fuel + 4) (h' : 8 * n ≤ fuel' + 4) :
    Local rest rest' n n (blockStatements (fuel + 1)) (blockStatements (fuel' + 1)) := by
  refine .look fun c c' hcurrent _ => ?_
  rw [kind_eq_of_current hcurrent]
  generalize c.kind = kind
  split
  · exact .pure _
  · exact local_failHere _
  · refine .bind (ih.stmt n h h') fun s => ?_
    refine .bind ((ih.body (n - 1) (by omega) (by omega)).mono (Nat.le_refl _) (Nat.sub_le _ _))
      fun _ => .pure _

theorem local_stmt (h : 8 * n ≤ fuel + 5) (h' : 8 * n ≤ fuel' + 5) :
    Local rest rest' n (n - 1) (Parser.stmt (fuel + 1)) (Parser.stmt (fuel' + 1)) := by
  cases n with
  | zero => exact .of_forward (allForward _).stmt
  | succ n =>
    obtain ⟨k, rfl⟩ : ∃ k, fuel = k + 1 := ⟨fuel - 1, by omega⟩
    refine local_statement (ih.expr (n + 1) .lowest h h') ((allForward _).expr _) ?_
      (ih.block n (by omega) (by omega)|>.mono (Nat.le_refl _) (Nat.sub_le _ _))
      (ih.conditional (n + 1) (by omega) (by omega))
    exact fun c hk hc => (past_operand hk hc).bind fun left => (allForward k).extend _ left

end Step

theorem allLocal (fuel fuel' : Nat) : AllLocal rest rest' fuel fuel' := by
  induction fuel generalizing fuel' with
  | zero => exact allLocal_of_zero (.inl rfl)
  | succ fuel ih =>
    cases fuel' with
    | zero => exact allLocal_of_zero (.inr rfl)
    | succ fuel' =>
      have ih := ih fuel'
      have hexpr (n : Nat) (h : 8 * n ≤ fuel + 7) (h' : 8 * n ≤ fuel' + 7) :=
        (ih.expr (n - 1) .lowest (by omega) (by omega)).mono (Nat.le_refl _) (Nat.sub_le _ _)
      have hblock (n : Nat) (h : 8 * n ≤ fuel + 7) (h' : 8 * n ≤ fuel' + 7) :=
        (ih.block (n - 1) (by omega) (by omega)).mono (Nat.le_refl _) (Nat.sub_le _ _)
      have hcond (n : Nat) (h : 8 * n ≤ fuel + 7) (h' : 8 * n ≤ fuel' + 7) :=
        (ih.conditional (n - 1) (by omega) (by omega)).mono (Nat.le_refl _) (Nat.sub_le _ _)
      exact {
        expr := fun n power h h' => local_expr ih power h h'
        extend := fun n power left h h' => local_extend ih power left h h'
        block := fun n h h' => local_braced (ih.body (n - 1) (by omega) (by omega))
        body := fun n h h' => local_blockStatements ih h h'
        conditional := fun n h h' => local_ifElse (hexpr n h h') (hblock n h h') (hcond n h h')
        stmt := fun n h h' => local_stmt ih h h' }

theorem local_statements (fuel fuel' : Nat) (h : 8 * n ≤ fuel + 3) (h' : 8 * n ≤ fuel' + 3) :
    Local rest rest' n n (statements fuel) (statements fuel') := by
  induction fuel generalizing n fuel' with
  | zero =>
    obtain rfl : n = 0 := by omega
    exact .of_forward (forward_statements _)
  | succ fuel ih =>
    cases fuel' with
    | zero =>
      obtain rfl : n = 0 := by omega
      exact .of_forward (forward_statements _)
    | succ fuel' =>
      refine .look fun c c' hcurrent _ => ?_
      have hend : c'.atEnd = c.atEnd := by
        unfold Cursor.atEnd
        rw [kind_eq_of_current hcurrent]
      rw [hend]
      split
      · exact .pure _
      · refine .bind ((allLocal fuel fuel').stmt n h h') fun s => ?_
        have hrest : Local rest rest' (n - 1) (n - 1) (statements fuel) (statements fuel') :=
          ih fuel' (by omega) (by omega)
        exact .bind (hrest.mono (Nat.le_refl _) (Nat.sub_le _ _)) fun _ => .pure _

end Leveret.Parser
