import Leveret.Proofs.Grammar.Soundness
import Leveret.Proofs.Printing.RoundTrip

/-!
# The tokens that a node is made of

Every expression, block and statement of a parsed program is made of a stretch of tokens, from the
first of which its span begins to the last of which it ends. The children of a node are made of
parts of its stretch that follow one another. Parentheses around an operand belong to the stretch
of none but the nodes outside of them, so an expression may begin and end inside of its own.
-/

namespace Leveret

open Grammar (Braces Conditional Sentence)

/-! ## Sites -/

inductive Site where
  | expr (e : Expr)
  | block (b : Block)
  | stmt (s : Stmt)

namespace Site

def span : Site → Span
  | expr e => e.node.span
  | block b => b.span
  | stmt s => s.node.span

def children : Site → List Site
  | expr (.literal ..) | expr (.load ..) => []
  | expr (.unary _ _ operand) => [.expr operand]
  | expr (.binary _ _ left right) => [.expr left, .expr right]
  | expr (.compound _ body) => [.block body]
  | block ⟨_, statements⟩ => statements.map .stmt
  | stmt (.declareVar _ _ _ init) => init.toList.map .expr
  | stmt (.declareConst _ _ _ value) | stmt (.assign _ _ value) | stmt (.print _ value)
  | stmt (.expr _ value) => [.expr value]
  | stmt (.ifElse _ test consequence alternative) =>
    .expr test :: .block consequence :: alternative.toList.map .block
  | stmt (.whileLoop _ test body) => [.expr test, .block body]
  | stmt (.breakLoop _) | stmt (.continueLoop _) => []

end Site

/-! ## Stretches of tokens -/

def Terminated (own : List Token) : Prop :=
  ∃ last, own.getLast? = some last ∧ (last.kind = .semicolon ∨ last.kind = .closeCurly)

def Span.Encloses (span : Span) (own : List Token) : Prop :=
  ∃ first last, own.head? = some first ∧ own.getLast? = some last ∧
    span = ⟨first.span.start, last.span.stop⟩

/-- A statement or a block is derived from just these tokens, up to its terminator. In place of
the block after an `else` there may be another conditional. -/
def Site.Whole (own : List Token) : Site → Prop
  | expr _ => True
  | block b => Terminated own ∧ ((∃ q : Braces, q.tokens = own ∧ q.tree = b.outline) ∨
      ∃ q : Conditional, q.tokens = own ∧ ⟨default, [q.tree]⟩ = b.outline)
  | stmt s => Terminated own ∧ ∃ q : Sentence, q.tokens = own ∧ q.tree = s.outline

mutual

/-- The node is made of these tokens, and its children of parts of them. -/
inductive Made : Site → List Token → Prop
  | intro {site own} : site.span.Encloses own → site.Whole own → MadeAll site.children own →
      Made site own

/-- The nodes are made of tokens that follow one another, with other tokens around them. -/
inductive MadeAll : List Site → List Token → Prop
  | nil {gap} : MadeAll [] gap
  | cons {site rest own more} (gap : List Token) : Made site own → MadeAll rest more →
      MadeAll (site :: rest) (gap ++ own ++ more)

end

theorem Made.encloses {site : Site} {own : List Token} (h : Made site own) :
    site.span.Encloses own := by
  cases h with
  | intro hspan _ _ => exact hspan

theorem Made.whole {site : Site} {own : List Token} (h : Made site own) : site.Whole own := by
  cases h with
  | intro _ hwhole _ => exact hwhole

theorem Made.children {site : Site} {own : List Token} (h : Made site own) :
    MadeAll site.children own := by
  cases h with
  | intro _ _ hall => exact hall

section Stretches

variable {site : Site} {sites : List Site} {own gap more : List Token} {span span' : Span}
  {t t' : Token}

theorem encloses_singleton : t.span.Encloses [t] := ⟨t, t, rfl, rfl, rfl⟩

theorem Span.Encloses.ne_nil (h : span.Encloses own) : own ≠ [] := by
  obtain ⟨first, last, hfirst, -⟩ := h
  rintro rfl
  cases hfirst

theorem Span.Encloses.after (h : span.Encloses own) :
    Span.Encloses ⟨t.span.start, span.stop⟩ (t :: (gap ++ own)) := by
  obtain ⟨first, last, hfirst, hlast, rfl⟩ := h
  exact ⟨t, last, rfl, by simp [List.getLast?_cons, hlast], rfl⟩

theorem Span.Encloses.join (h : span.Encloses own) (h' : span'.Encloses more) :
    Span.Encloses ⟨span.start, span'.stop⟩ (own ++ gap ++ more) := by
  obtain ⟨first, last, hfirst, hlast, rfl⟩ := h
  obtain ⟨first', last', hfirst', hlast', rfl⟩ := h'
  exact ⟨first, last', by simp [hfirst], by simp [hlast'], rfl⟩

theorem MadeAll.left (gap : List Token) (h : MadeAll sites own) : MadeAll sites (gap ++ own) := by
  cases h with
  | nil => exact .nil
  | cons gap' hsite hrest =>
    rw [← List.append_assoc, ← List.append_assoc]
    exact .cons (gap ++ gap') hsite hrest

theorem MadeAll.right (h : MadeAll sites own) (more : List Token) :
    MadeAll sites (own ++ more) := by
  induction sites generalizing own with
  | nil => exact .nil
  | cons site rest ih =>
    cases h with
    | cons gap hsite hrest =>
      rw [List.append_assoc]
      exact .cons gap hsite (ih hrest)

theorem Made.alone (h : Made site own) : MadeAll [site] own := by
  have h := MadeAll.cons [] h (@MadeAll.nil [])
  rwa [List.append_nil] at h

end Stretches

/-! ## Terminators -/

theorem terminated_snoc {own : List Token} {t : Token}
    (h : t.kind = .semicolon ∨ t.kind = .closeCurly) : Terminated (own ++ [t]) :=
  ⟨t, List.getLast?_concat, h⟩

theorem Terminated.append {own more : List Token} (h : Terminated more) :
    Terminated (own ++ more) := by
  obtain ⟨last, hlast, hkind⟩ := h
  exact ⟨last, by simp [hlast], hkind⟩

namespace Grammar

theorem Braces.terminated (b : Braces) : Terminated b.tokens := by
  cases b with
  | mk opening inside closing =>
    exact @terminated_snoc (opening.token :: inside.tokens) _ (.inr closing.kind_eq)

theorem Conditional.terminated (c : Conditional) : Terminated c.tokens := by
  cases c with
  | only _ _ consequence => exact consequence.terminated.append
  | otherwise word test consequence word' alternative =>
    rw [Conditional.tokens, List.append_cons]
    exact alternative.terminated.append
  | elseIf word test consequence word' alternative =>
    rw [Conditional.tokens, List.append_cons]
    exact alternative.terminated.append

theorem Sentence.terminated (s : Sentence) : Terminated s.tokens := by
  cases s with
  | varZero _ _ _ semicolon | breakLoop _ semicolon | continueLoop _ semicolon =>
    exact ⟨_, rfl, .inl semicolon.kind_eq⟩
  | varInit _ _ _ _ _ semicolon | const _ _ _ _ _ semicolon | assign _ _ _ semicolon
  | print _ _ semicolon | expr _ semicolon => exact terminated_snoc (.inl semicolon.kind_eq)
  | conditional c => exact c.terminated
  | whileLoop _ _ body => exact body.terminated.append

end Grammar

/-! ## What the parser reads -/

namespace Parser

/-- The expression is made of a part of the tokens, without the parentheses around it. -/
def Inside (e : Expr) (read : List Token) : Prop :=
  ∃ before own after, read = before ++ own ++ after ∧ Made (.expr e) own

/-- What a parser made of the tokens that it read. -/
def Stands : Goal → List Token → Piece → Prop
  | .operand, read, .expr e | .expr _, read, .expr e => Inside e read
  | .extend _ left, read, .expr e => ∀ own gap, Made (.expr left) own →
      ∃ own' after, own ++ gap ++ read = own' ++ after ∧ Made (.expr e) own'
  | .block, read, .block b => Made (.block b) read
  | .conditional, read, .stmt s | .statement, read, .stmt s => Made (.stmt s) read
  | .body, read, .stmts list | .program, read, .stmts list => MadeAll (list.map .stmt) read
  | _, _, _ => False

section Reading

variable {c d : Cursor} {t : Token} {read gap more : List Token} {e : Expr}

theorem Inside.ne_nil (h : Inside e read) : read ≠ [] := by
  obtain ⟨before, own, after, rfl, hmade⟩ := h
  simp [hmade.encloses.ne_nil]

theorem Inside.cons {rest : List Site} (gap : List Token) (h : Inside e read)
    (hrest : MadeAll rest more) : MadeAll (.expr e :: rest) (gap ++ read ++ more) := by
  obtain ⟨before, own, after, rfl, hmade⟩ := h
  have h := MadeAll.cons (gap ++ before) hmade (hrest.left after)
  simpa using h

theorem Inside.all (gap : List Token) (h : Inside e read) (more : List Token) :
    MadeAll [.expr e] (gap ++ read ++ more) := h.cons gap .nil

theorem Next.previousEnd (h : c.Next t d) : d.previousEnd = t.span.stop := by
  rw [h.2, Cursor.advance, h.1]

theorem Reads.block_stop {b : Block} (h : Reads .block c (.block b) d) :
    d.previousEnd = b.span.stop := by
  cases h
  rfl

theorem Reads.conditional_stop {s : Stmt} (h : Reads .conditional c (.stmt s) d) :
    d.previousEnd = s.node.span.stop := by
  cases h <;> rfl

theorem ReadsType.exists_read {ty : Option Ty} (h : ReadsType c ty d) :
    ∃ read, c.pending = read ++ d.pending := by
  obtain ⟨read, hread⟩ := h.suffix
  exact ⟨read, hread.symm⟩

theorem Reads.whole_block {b : Block} (h : Reads .block c (.block b) d)
    (hread : c.pending = read ++ d.pending) : (Site.block b).Whole read := by
  obtain ⟨q, hq, htree⟩ := Grammar.reads_follows h
  obtain rfl := List.append_cancel_right (hq.symm.trans hread)
  exact ⟨q.terminated, .inl ⟨q, rfl, htree⟩⟩

/-- After an `else`, a conditional stands for a block as well. -/
theorem Reads.whole_conditional {s : Stmt} (h : Reads .conditional c (.stmt s) d)
    (hread : c.pending = read ++ d.pending) :
    (Site.stmt s).Whole read ∧ (Site.block ⟨s.node.span, [s]⟩).Whole read := by
  obtain ⟨q, hq, htree⟩ := Grammar.reads_follows h
  obtain rfl := List.append_cancel_right (hq.symm.trans hread)
  refine ⟨⟨q.terminated, @Sentence.conditional q, rfl, htree⟩, q.terminated, .inr ⟨q, rfl, ?_⟩⟩
  rw [htree]
  rfl

theorem Reads.whole_statement {s : Stmt} (h : Reads .statement c (.stmt s) d)
    (hread : c.pending = read ++ d.pending) : (Site.stmt s).Whole read := by
  obtain ⟨q, hq, htree⟩ := Grammar.reads_follows h
  obtain rfl := List.append_cancel_right (hq.symm.trans hread)
  exact ⟨q.terminated, q, rfl, htree⟩

theorem Reads.ended {s : Stmt} {c' : Cursor} {t' : Token}
    (h : Reads .statement c (.stmt s) c'.tick) (hn : d.Next t' c')
    (hspan : s.node.span = ⟨t.span.start, c'.previousEnd⟩)
    (hread : c.pending = t :: (read ++ [t']) ++ c'.tick.pending)
    (hall : MadeAll (Site.stmt s).children (t :: (read ++ [t']))) :
    ∃ read, c.pending = read ++ c'.tick.pending ∧ Stands .statement read (.stmt s) := by
  refine ⟨_, hread, .intro ?_ (h.whole_statement hread) hall⟩
  refine ⟨t, t', rfl, by simp [List.getLast?_cons], ?_⟩
  rw [Next.previousEnd hn] at hspan
  exact hspan

theorem closing_block {b : Block} (h : Made (.block b) read) (hd : d.previousEnd = b.span.stop) :
    Span.Encloses (d.closing t.span.start).span (t :: (gap ++ read)) := by
  rw [Cursor.closing, hd]
  exact h.encloses.after

/-- A node is made of what the parser reads for it. -/
theorem Reads.stands {g : Goal} {p : Piece} (h : Reads g c p d) :
    ∃ read, c.pending = read ++ d.pending ∧ Stands g read p := by
  -- the tokens of each case are put together from those of its parts, before any span is looked at
  induction h with
  | @literal c t d value hn _ | @name c t d hn _ =>
    exact ⟨[t], hn.1, [], [t], [], rfl, .intro encloses_singleton trivial .nil⟩
  | @signed c t d op e d' hn _ _ ih =>
    obtain ⟨read, hread, before, own, after, rfl, hmade⟩ := ih
    refine ⟨t :: (before ++ own ++ after), ?_, [], t :: (before ++ own), after, by simp, ?_⟩
    · rw [hn.1, hread]
      rfl
    · exact .intro hmade.encloses.after trivial (hmade.alone.left (t :: before))
  | @group c t d e d' t' c' hn _ _ hn' _ ih =>
    obtain ⟨read, hread, before, own, after, rfl, hmade⟩ := ih
    refine ⟨t :: (before ++ own ++ after) ++ [t'], ?_, t :: before, own, after ++ [t'], by simp,
      hmade⟩
    simp [hn.1, hread, hn'.1]
  | @compound c b d _ _ ih =>
    obtain ⟨read, hread, hmade⟩ := ih
    exact ⟨read, hread, [], read, [], by simp, .intro hmade.encloses trivial hmade.alone⟩
  | @expr c power left d e c' _ _ ih ih' =>
    obtain ⟨read, hread, before, own, after, rfl, hmade⟩ := ih
    obtain ⟨read', hread', hmore⟩ := ih'
    obtain ⟨own', after', hown, hmade'⟩ := hmore own after hmade
    refine ⟨before ++ own ++ after ++ read', by simp [hread, hread'], before, own', after', ?_,
      hmade'⟩
    simp only [List.append_assoc] at hown ⊢
    rw [hown]
  | stop => exact ⟨[], rfl, fun own gap hmade => ⟨own, gap, List.append_nil _, hmade⟩⟩
  | @join c power left t d op right d' e c' _ hn _ _ _ ih ih' =>
    obtain ⟨read, hread, before, own, after, rfl, hright⟩ := ih
    obtain ⟨read', hread', hmore⟩ := ih'
    rw [Cursor.tick_pending] at hread'
    refine ⟨t :: (before ++ own ++ after) ++ read', by simp [hn.1, hread, hread'], ?_⟩
    intro ownLeft gap hleft
    -- what is read so far is the left operand, and the new one goes on up to the right operand
    have hall : MadeAll [.expr left, .expr right] (ownLeft ++ (gap ++ t :: before) ++ own) := by
      have h := MadeAll.cons [] hleft (hright.alone.left (gap ++ t :: before))
      simpa using h
    obtain ⟨own', after', hown, hmade⟩ :=
      hmore _ after (.intro (hleft.encloses.join hright.encloses) trivial hall)
    exact ⟨own', after', by simpa using hown, hmade⟩
  | @block c t d inside d' t' c' hn hk hr hn' hk' ih =>
    obtain ⟨read, hread, hall⟩ := ih
    have hpending : c.pending = t :: (read ++ [t']) ++ c'.pending := by
      simp [hn.1, hread, hn'.1]
    refine ⟨_, hpending, .intro ?_ ((Reads.block hn hk hr hn' hk').whole_block hpending) ?_⟩
    · exact ⟨t, t', rfl, by simp [List.getLast?_cons], by rw [Next.previousEnd hn']; rfl⟩
    · exact (hall.right [t']).left [t]
  | bodyEnd | programEnd => exact ⟨[], rfl, .nil⟩
  | bodyNext _ _ _ _ ih ih' | programNext _ _ _ ih ih' =>
    obtain ⟨read, hread, hmade⟩ := ih
    obtain ⟨read', hread', hall⟩ := ih'
    exact ⟨read ++ read', by simp [hread, hread'], .cons [] hmade hall⟩
  | @ifOnly c t c₁ test c₂ b c₃ hn hk hr hr' hno ih ih' =>
    obtain ⟨read, hread, htest⟩ := ih
    obtain ⟨read', hread', hblock⟩ := ih'
    have hpending : c.pending = t :: (read ++ read') ++ c₃.tick.pending := by
      simp [hn.1, hread, hread']
    have hwhole := (Reads.ifOnly hn hk hr hr' hno).whole_conditional hpending
    refine ⟨_, hpending, .intro (closing_block hblock hr'.block_stop) hwhole.1 ?_⟩
    exact htest.cons [t] hblock.alone
  | @ifElse c t c₁ test c₂ b c₃ t' c₄ b' c₅ hn hk hr hr' hn' hk' hno hr'' ih ih' ih'' =>
    obtain ⟨read, hread, htest⟩ := ih
    obtain ⟨read', hread', hblock⟩ := ih'
    obtain ⟨read'', hread'', hblock'⟩ := ih''
    have hpending : c.pending = t :: (read ++ read' ++ [t'] ++ read'') ++ c₅.tick.pending := by
      simp [hn.1, hread, hread', hn'.1, hread'']
    have hwhole := (Reads.ifElse hn hk hr hr' hn' hk' hno hr'').whole_conditional hpending
    refine ⟨_, hpending, .intro (closing_block hblock' hr''.block_stop) hwhole.1 ?_⟩
    have hall := htest.cons [t] (.cons [] hblock (hblock'.alone.left [t']))
    simpa [Site.children] using hall
  | @ifChain c t c₁ test c₂ b c₃ t' c₄ s c₅ hn hk hr hr' hn' hk' hk'' hr'' ih ih' ih'' =>
    obtain ⟨read, hread, htest⟩ := ih
    obtain ⟨read', hread', hblock⟩ := ih'
    obtain ⟨read'', hread'', hnested⟩ := ih''
    have hpending : c.pending = t :: (read ++ read' ++ [t'] ++ read'') ++ c₅.tick.pending := by
      simp [hn.1, hread, hread', hn'.1, hread'']
    have hwhole := (Reads.ifChain hn hk hr hr' hn' hk' hk'' hr'').whole_conditional hpending
    have hblock' : Made (.block ⟨s.node.span, [s]⟩) read'' :=
      .intro hnested.encloses (hr''.whole_conditional hread'').2 hnested.alone
    refine ⟨_, hpending, .intro (closing_block hblock' hr''.conditional_stop) hwhole.1 ?_⟩
    have hall := htest.cons [t] (.cons [] hblock (hblock'.alone.left [t']))
    simpa [Site.children] using hall
  | @varZero c t c₁ name c₂ ty c₃ t' c' hn hk hname hid hty hs hs' =>
    obtain ⟨typed, htyped⟩ := hty.exists_read
    have hpending : c.pending = t :: (name :: typed ++ [t']) ++ c'.tick.pending := by
      simp [hn.1, hname.1, htyped, hs.1]
    exact (Reads.varZero hn hk hname hid hty hs hs').ended hs rfl hpending .nil
  | @varInit c t c₁ name c₂ declared c₃ eq c₄ init c₅ t' c' hn hk hname hid hty heq heq' hr hs hs'
      ih =>
    obtain ⟨typed, htyped⟩ := hty.exists_read
    obtain ⟨read, hread, hinit⟩ := ih
    have hpending : c.pending = t :: (name :: typed ++ eq :: read ++ [t']) ++ c'.tick.pending := by
      simp [hn.1, hname.1, htyped, heq.1, hread, hs.1]
    refine (Reads.varInit hn hk hname hid hty heq heq' hr hs hs').ended hs rfl hpending ?_
    have hall := hinit.all (t :: name :: typed ++ [eq]) [t']
    simpa [Site.children] using hall
  | @const c t c₁ name c₂ declared c₃ eq c₄ init c₅ t' c' hn hk hname hid hty heq heq' hr hs hs'
      ih =>
    obtain ⟨typed, htyped⟩ := hty.exists_read
    obtain ⟨read, hread, hinit⟩ := ih
    have hpending : c.pending = t :: (name :: typed ++ eq :: read ++ [t']) ++ c'.tick.pending := by
      simp [hn.1, hname.1, htyped, heq.1, hread, hs.1]
    refine (Reads.const hn hk hname hid hty heq heq' hr hs hs').ended hs rfl hpending ?_
    have hall := hinit.all (t :: name :: typed ++ [eq]) [t']
    simpa [Site.children] using hall
  | @assign c name c₁ eq c₂ value c₃ t' c' hname hid heq heq' hr hs hs' ih =>
    obtain ⟨read, hread, hvalue⟩ := ih
    have hpending : c.pending = name :: (eq :: read ++ [t']) ++ c'.tick.pending := by
      simp [hname.1, heq.1, hread, hs.1]
    exact (Reads.assign hname hid heq heq' hr hs hs').ended hs rfl hpending
      (hvalue.all [name, eq] [t'])
  | @print c t c₁ value c₂ t' c' hn hk hr hs hs' ih =>
    obtain ⟨read, hread, hvalue⟩ := ih
    have hpending : c.pending = t :: (read ++ [t']) ++ c'.tick.pending := by
      simp [hn.1, hread, hs.1]
    exact (Reads.print hn hk hr hs hs').ended hs rfl hpending (hvalue.all [t] [t'])
  | conditional _ _ ih => exact ih
  | @whileLoop c t c₁ test c₂ b c' hn hk hr hr' ih ih' =>
    obtain ⟨read, hread, htest⟩ := ih
    obtain ⟨read', hread', hblock⟩ := ih'
    have hpending : c.pending = t :: (read ++ read') ++ c'.tick.pending := by
      simp [hn.1, hread, hread']
    have hwhole := (Reads.whileLoop hn hk hr hr').whole_statement hpending
    refine ⟨_, hpending, .intro (closing_block hblock hr'.block_stop) hwhole ?_⟩
    exact htest.cons [t] hblock.alone
  | @breakLoop c t c₁ t' c' hn hk hs hs' =>
    have hpending : c.pending = t :: ([] ++ [t']) ++ c'.tick.pending := by simp [hn.1, hs.1]
    exact (Reads.breakLoop hn hk hs hs').ended hs rfl hpending .nil
  | @continueLoop c t c₁ t' c' hn hk hs hs' =>
    have hpending : c.pending = t :: ([] ++ [t']) ++ c'.tick.pending := by simp [hn.1, hs.1]
    exact (Reads.continueLoop hn hk hs hs').ended hs rfl hpending .nil
  | @exprStatement c e d t' c' hk hno hr hs hs' ih =>
    -- the span begins where the cursor stands, be it at a parenthesis
    obtain ⟨read, hread, hvalue⟩ := ih
    obtain ⟨t, rest, rfl⟩ := List.exists_cons_of_ne_nil hvalue.ne_nil
    have hpending : c.pending = t :: (rest ++ [t']) ++ c'.tick.pending := by simp [hread, hs.1]
    have hstart : c.position = t.span.start := by
      rw [Cursor.position, Cursor.current, hpending]
      rfl
    have hspan : (c'.closing c.position).span = ⟨t.span.start, c'.previousEnd⟩ := by
      rw [hstart]
      rfl
    exact (Reads.exprStatement hk hno hr hs hs').ended hs hspan hpending (hvalue.all [] [t'])

end Reading

end Parser

end Leveret
