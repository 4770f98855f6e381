import Leveret.Proofs.Grammar.Completeness
import Leveret.Proofs.Parsing.Outcomes
import Leveret.Proofs.Parsing.Runs

/-!
# What is read before a fault can be finished

Where the parser finds a fault, it has read the beginning of what it was asked for: there are
tokens that would have made it whole. So a fault is never found too late.
-/

namespace Leveret

inductive Cause.Misplaced : Cause → Prop
  | plain (token : String) : Misplaced (.unexpectedToken token)
  | detailed (token message : String) : Misplaced (.unexpectedTokenDetailed token message)

namespace Cursor

/-- A place among tokens of a text: they come to an end, and a name of a type names one. -/
structure Lexed (c : Cursor) : Prop where
  closed : c.Closed
  types : ∀ t ∈ c.pending, t.kind = .typeName → ∃ ty, Ty.ofName? t.text = some ty

/-- The tokens stand between `c` and `d`. -/
structure Covers (c : Cursor) (tokens : List Token) (d : Cursor) : Prop where
  pending : c.pending = tokens ++ d.pending
  final : d.final = c.final

variable {c d e : Cursor} {tokens tokens' : List Token} {t : Token}

theorem Covers.nil : c.Covers [] c := ⟨rfl, rfl⟩

theorem Next.covers (h : c.Next t d) : c.Covers [t] d := ⟨h.1, h.final⟩

theorem Covers.append (h : c.Covers tokens d) (h' : d.Covers tokens' e) :
    c.Covers (tokens ++ tokens') e :=
  ⟨by rw [h.pending, h'.pending, List.append_assoc], h'.final.trans h.final⟩

theorem Covers.lexed (h : c.Covers tokens d) (hc : c.Lexed) : d.Lexed := by
  refine ⟨?_, fun t ht => hc.types t ?_⟩
  · unfold Closed
    rw [h.final]
    exact hc.closed
  · rw [h.pending]
    exact List.mem_append_right _ ht

theorem Next.lexed (h : c.Next t d) (hc : c.Lexed) : d.Lexed := h.covers.lexed hc

end Cursor

namespace Grammar

open Leveret.Parser

/-! ## Words to go on with -/

def semicolon : Word .semicolon := ⟨⟨.semicolon, ";", default⟩, rfl⟩
def equalsSign : Word .assignment := ⟨⟨.assignment, "=", default⟩, rfl⟩
def ifWord : Word .ifWord := ⟨⟨.ifWord, "if", default⟩, rfl⟩
def closingParen : Word .closeParen := ⟨⟨.closeParen, ")", default⟩, rfl⟩
def openingCurly : Word .openCurly := ⟨⟨.openCurly, "\x7b", default⟩, rfl⟩
def closingCurly : Word .closeCurly := ⟨⟨.closeCurly, "\x7d", default⟩, rfl⟩
def someName : Word .identifier := ⟨⟨.identifier, "x", default⟩, rfl⟩
def someType : TypeWord := ⟨⟨.typeName, "int", default⟩, .int, rfl, by decide⟩

def emptyBraces : Braces := .mk openingCurly .nil closingCurly

def someOperand : Phrase .unary := .unsigned (.name someName)

theorem exists_any : ∃ q : Phrase .any, q.tokens = [someName.token] :=
  let ⟨q, hq, _⟩ := someOperand.loosen (show Level.any.rank ≤ Level.unary.rank by decide)
  ⟨q, hq⟩

/-! ## Beginnings -/

/-- More tokens can make the given ones into what the parser is asked for. -/
def Opens : Goal → List Token → Prop
  | .operand, tokens => ∃ more, ∃ p : Phrase .unary, p.tokens = tokens ++ more
  | .expr power, tokens =>
    ∃ more level, power.rank < level.rank ∧ ∃ p : Phrase level, p.tokens = tokens ++ more
  | .extend power _, tokens => ∀ level (p : Phrase level), power.rank < level.rank →
      (headKind tokens).power.rank ≤ level.rank → ∃ more level', power.rank < level'.rank ∧
        ∃ q : Phrase level', q.tokens = p.tokens ++ tokens ++ more
  | .block, tokens => ∃ more, ∃ p : Braces, p.tokens = tokens ++ more
  | .conditional, tokens => ∃ more, ∃ p : Conditional, p.tokens = tokens ++ more
  | .statement, tokens => ∃ more, ∃ p : Sentence, p.tokens = tokens ++ more
  | .body, tokens | .program, tokens => ∃ more, ∃ p : Sentences, p.tokens = tokens ++ more

theorem opens_nil (g : Goal) : Opens g [] := by
  obtain ⟨q, -⟩ := exists_any
  cases g with
  | operand => exact ⟨_, someOperand, rfl⟩
  | expr power => exact ⟨_, .unary, power_rank_lt power, someOperand, rfl⟩
  | extend power left => exact fun level p hlevel _ => ⟨[], level, hlevel, p, by simp⟩
  | block => exact ⟨_, emptyBraces, rfl⟩
  | conditional => exact ⟨_, .only ifWord q emptyBraces, rfl⟩
  | statement => exact ⟨_, .expr q semicolon, rfl⟩
  | body | program => exact ⟨_, .nil, rfl⟩

theorem Opens.any {tokens : List Token} (h : Opens (.expr .lowest) tokens) :
    ∃ more, ∃ q : Phrase .any, q.tokens = tokens ++ more := by
  obtain ⟨more, level, hlevel, p, hp⟩ := h
  obtain ⟨q, hq, -⟩ := p.loosen (show Level.any.rank ≤ level.rank from hlevel)
  exact ⟨more, q, hq.trans hp⟩

theorem Opens.of_append {g : Goal} {tokens tokens' : List Token}
    (hg : ∀ power left, g ≠ .extend power left) (h : Opens g (tokens ++ tokens')) :
    Opens g tokens := by
  cases g with
  | extend power left => exact absurd rfl (hg power left)
  | expr power =>
    obtain ⟨more, level, hlevel, p, hp⟩ := h
    exact ⟨tokens' ++ more, level, hlevel, p, by rw [hp, List.append_assoc]⟩
  | _ =>
    obtain ⟨more, p, hp⟩ := h
    exact ⟨tokens' ++ more, p, by rw [hp, List.append_assoc]⟩

/-- The parser, asked for `g` at `c`, has found a fault at `d`: a number that is none, or a token
that cannot stand behind the beginning that was read. -/
structure Stops (g : Goal) (c : Cursor) (fault : Diagnostic) (d : Cursor) : Prop where
  position : fault.position = d.position
  read : ∃ tokens, c.Covers tokens d ∧ ((∃ text, fault.cause = .numberParseError text) ∨
    fault.cause.Misplaced ∧ Opens g tokens)

theorem Stops.here {g : Goal} {c d : Cursor} {tokens : List Token} {cause : Cause}
    (h : c.Covers tokens d) (hopens : Opens g tokens) (hcause : cause.Misplaced) :
    Stops g c ⟨cause, d.position⟩ d := ⟨rfl, tokens, h, .inr ⟨hcause, hopens⟩⟩

theorem Stops.after {g g' : Goal} {c d e : Cursor} {tokens : List Token} {fault : Diagnostic}
    (h : Stops g' d fault e) (hd : c.Covers tokens d)
    (hopens : ∀ tokens', Opens g' tokens' → Opens g (tokens ++ tokens')) : Stops g c fault e := by
  obtain ⟨tokens', he, hread⟩ := h.read
  refine ⟨h.position, tokens ++ tokens', hd.append he, ?_⟩
  rcases hread with hnumber | ⟨hcause, hread⟩
  · exact .inl hnumber
  · exact .inr ⟨hcause, hopens tokens' hread⟩

theorem Stops.whole {g g' : Goal} {c e : Cursor} {fault : Diagnostic} (h : Stops g' c fault e)
    (hopens : ∀ tokens, Opens g' tokens → Opens g tokens) : Stops g c fault e :=
  h.after .nil hopens

/-! ## Parsers that answer -/

def Answers {α : Type} (g : Goal) (piece : α → Piece) (p : Parser α) : Prop :=
  ∀ c, c.Lexed → Outcome p c (fun a d => Reads g c (piece a) d) (Stops g c)

def Faults {α : Type} (g : Goal) (p : Parser α) : Prop :=
  ∀ c, c.Lexed → Outcome p c (fun _ _ => True) (Stops g c)

theorem Faults.answers {α : Type} {g : Goal} {piece : α → Piece} {p : Parser α}
    (h : Faults g p) (hp : Reaches g piece p) : Answers g piece p := by
  intro c hc
  have hf := h c hc
  unfold Outcome at hf ⊢
  cases hrun : p.run c with
  | ok a d => exact hp c a d hc.closed hrun
  | error e d =>
    rw [hrun] at hf
    exact hf

section Steps

variable {α : Type} {c : Cursor} {ok : α → Cursor → Prop} {bad : Diagnostic → Cursor → Prop}

theorem unexpected_outcome (h : ∀ cause : Cause, cause.Misplaced → bad ⟨cause, c.position⟩ c) :
    Outcome unexpected c ok bad := .look (.throw (h _ (.plain _)))

theorem failHere_outcome {message : String}
    (h : ∀ cause : Cause, cause.Misplaced → bad ⟨cause, c.position⟩ c) :
    Outcome (failHere message) c ok bad := .look (.throw (h _ (.detailed _ _)))

theorem advance_outcome {ok : Token → Cursor → Prop} (hc : c.Lexed) (hk : c.kind ≠ .endOfFile)
    (h : ∀ t d, c.Next t d → t.kind = c.kind → ok t d) : Outcome advance c ok bad :=
  .of_ok (advance_run c) (h _ _ (Cursor.next_of_kind hc.closed hk) rfl)

theorem expect_outcome {kind : Kind} {ok : Token → Cursor → Prop} (hc : c.Lexed)
    (hk : kind ≠ .endOfFile) (hok : ∀ t d, c.Next t d → t.kind = kind → ok t d)
    (hbad : ∀ cause : Cause, cause.Misplaced → bad ⟨cause, c.position⟩ c) :
    Outcome (expect kind) c ok bad := by
  refine .look ?_
  split
  · rename_i hkind
    refine advance_outcome hc (hkind ▸ hk) fun t d hn ht => hok t d hn (ht.trans hkind)
  · exact unexpected_outcome hbad

theorem expectDetailed_outcome {kind : Kind} {message : String} {ok : Token → Cursor → Prop}
    (hc : c.Lexed) (hk : kind ≠ .endOfFile) (hok : ∀ t d, c.Next t d → t.kind = kind → ok t d)
    (hbad : ∀ cause : Cause, cause.Misplaced → bad ⟨cause, c.position⟩ c) :
    Outcome (expectDetailed kind message) c ok bad := by
  refine .look ?_
  split
  · rename_i hkind
    refine advance_outcome hc (hkind ▸ hk) fun t d hn ht => hok t d hn (ht.trans hkind)
  · exact failHere_outcome hbad

theorem closing_stops {start : Position} {make : Node → Stmt} {c₀ : Cursor} {tokens : List Token}
    (hc : c.Lexed) (h : c₀.Covers tokens c) (hopens : Opens .statement tokens) :
    Outcome (do let _ ← expect .semicolon; return make (← closeNode start)) c
      (fun _ _ => True) (Stops .statement c₀) :=
  .bind (expect_outcome hc (by decide)
    (fun _ d _ _ => .bind (.of_ok (closeNode_run start d) (.pure trivial)))
    fun _ hcause => .here h hopens hcause)

end Steps

/-! ## Expressions -/

section Constructs

variable {expr : Power → Parser Expr} {block : Parser Block} {conditional : Parser Stmt}
  {c : Cursor} {ok : Expr → Cursor → Prop} {bad : Diagnostic → Cursor → Prop}

/-- An expression within `g`, behind `tokens`: what completes `g` behind every phrase completes it
behind the beginning of one. -/
theorem Answers.part {g : Goal} {tokens : List Token} {c₀ : Cursor}
    (h : Answers (.expr .lowest) .expr (expr .lowest)) (hc : c₀.Lexed)
    (hcovers : c₀.Covers tokens c) (hg : ∀ power left, g ≠ .extend power left)
    (hopens : ∀ q : Phrase .any, Opens g (tokens ++ q.tokens))
    (hok : ∀ e d (q : Phrase .any), c₀.Covers (tokens ++ q.tokens) d → ok e d) :
    Outcome (expr .lowest) c ok (Stops g c₀) := by
  refine (h c (hcovers.lexed hc)).mono (fun e d hr => ?_) fun e d hstops => ?_
  · obtain ⟨q, hq, -⟩ := any_of_follows (reads_follows hr)
    exact hok e d q (hcovers.append ⟨hq, hr.final⟩)
  · refine hstops.after hcovers fun tokens' hbegun => ?_
    obtain ⟨more, q, hq⟩ := hbegun.any
    have hwhole := hopens q
    rw [hq, ← List.append_assoc] at hwhole
    exact hwhole.of_append hg

theorem Answers.braces {g : Goal} {tokens : List Token} {c₀ : Cursor} {ok : Block → Cursor → Prop}
    (h : Answers .block .block block) (hc : c₀.Lexed) (hcovers : c₀.Covers tokens c)
    (hg : ∀ power left, g ≠ .extend power left)
    (hopens : ∀ q : Braces, Opens g (tokens ++ q.tokens))
    (hok : ∀ b d (q : Braces), c₀.Covers (tokens ++ q.tokens) d → ok b d) :
    Outcome block c ok (Stops g c₀) := by
  refine (h c (hcovers.lexed hc)).mono (fun b d hr => ?_) fun e d hstops => ?_
  · obtain ⟨q, hq, -⟩ := reads_follows hr
    exact hok b d q (hcovers.append ⟨hq, hr.final⟩)
  · refine hstops.after hcovers ?_
    rintro tokens' ⟨more, q, hq⟩
    have hwhole := hopens q
    rw [hq, ← List.append_assoc] at hwhole
    exact hwhole.of_append hg

theorem number_faults {value : Option Value} :
    Outcome (number c.current value) c (fun _ _ => True) (Stops .operand c) := by
  cases value with
  | none => exact .throw ⟨rfl, [], .nil, .inl ⟨_, rfl⟩⟩
  | some v =>
    refine .bind (.of_ok (advance_run c) ?_)
    exact .bind (.of_ok (freshNode_run _ _) (.pure trivial))

theorem leaf_faults {make : Node → Expr} :
    Outcome (leaf make) c (fun _ _ => True) (Stops .operand c) :=
  .bind (.of_ok (advance_run c) (.bind (.of_ok (freshNode_run _ _) (.pure trivial))))

theorem here_nil (g : Goal) (c : Cursor) (cause : Cause) (hcause : cause.Misplaced) :
    Stops g c ⟨cause, c.position⟩ c := .here .nil (opens_nil g) hcause

theorem primary_faults : Outcome primary c (fun _ _ => True) (Stops .operand c) := by
  refine .look ?_
  dsimp only
  split
  case h_1 | h_2 => exact number_faults
  case h_3 | h_4 | h_5 => exact leaf_faults
  case h_6 => exact unexpected_outcome (here_nil _ c)

theorem signed_faults (hexpr : ∀ power, Answers (.expr power) .expr (expr power)) (hc : c.Lexed)
    (hk : c.kind = .dash ∨ c.kind = .plus) :
    Outcome (signed expr) c (fun _ _ => True) (Stops .operand c) := by
  have hne : c.kind ≠ .endOfFile := by rcases hk with hk | hk <;> rw [hk] <;> decide
  refine .bind (advance_outcome hc hne fun t d hn ht => ?_)
  rw [← ht] at hk
  split
  · rename_i hop
    rcases hk with hk | hk <;> rw [hk] at hop <;> cases hop
  · rename_i op hop
    refine .bind ((hexpr .unary d (hn.lexed hc)).mono (fun e d' _ => ?_) fun e d' h => ?_)
    · exact .bind (.of_ok (freshNode_run _ _) (.pure trivial))
    · refine h.after hn.covers fun tokens hopens => ?_
      obtain ⟨more, level, hlevel, p, hp⟩ := hopens
      have hunary : Level.unary.rank ≤ level.rank := by
        cases level with
        | tier t => cases t <;> exact absurd hlevel (by decide)
        | unary | primary => decide
      obtain ⟨q, hq, -⟩ := p.loosen hunary
      exact ⟨more, .signed ⟨t, op, mem_signs.2 hop⟩ q, by simp [Phrase.tokens, hq, hp]⟩

theorem grouping_faults (hexpr : ∀ power, Answers (.expr power) .expr (expr power))
    (hc : c.Lexed) : Outcome (grouping expr) c (fun _ _ => True) (Stops .operand c) := by
  refine .bind (expect_outcome hc (by decide) (fun t d hn hk => ?_) (here_nil _ c))
  have hopens (q : Phrase .any) : Opens .operand ([t] ++ q.tokens) :=
    ⟨[closingParen.token], .unsigned (.group ⟨t, hk⟩ q closingParen), by simp [Phrase.tokens]⟩
  refine .bind ((hexpr .lowest).part hc hn.covers nofun hopens fun e d' q hq => ?_)
  exact .bind (expect_outcome (hq.lexed hc) (by decide) (fun _ _ _ _ => .pure trivial) fun _ =>
    .here hq (hopens q))

theorem compound_faults (hblock : Answers .block .block block) (hc : c.Lexed) :
    Outcome (compound block) c (fun _ _ => True) (Stops .operand c) := by
  have hopens (q : Braces) : Opens .operand ([] ++ q.tokens) :=
    ⟨[], .unsigned (.compound q), by simp [Phrase.tokens]⟩
  refine .bind (hblock.braces hc .nil nofun hopens fun b d q _ => ?_)
  exact .bind (.of_ok (freshNode_run _ _) (.pure trivial))

theorem operand_faults (hexpr : ∀ power, Answers (.expr power) .expr (expr power))
    (hblock : Answers .block .block block) : Faults .operand (operand expr block) := by
  intro c hc
  refine .look ?_
  split
  case h_1 | h_2 | h_3 | h_4 | h_5 => exact primary_faults
  case h_6 hk => exact signed_faults hexpr hc (.inl hk)
  case h_7 hk => exact signed_faults hexpr hc (.inr hk)
  case h_8 => exact grouping_faults hexpr hc
  case h_9 => exact compound_faults hblock hc
  case h_10 =>
    split
    · exact failHere_outcome (here_nil _ c)
    · exact unexpected_outcome (here_nil _ c)

/-! ### Operators -/

theorem exists_operator {power : Power} {kind : Kind} (h : power < kind.power) :
    ∃ op, BinaryOp.ofKind? kind = some op := by
  have hlowest : ¬ power < .lowest := Nat.not_lt_zero _
  cases kind <;> first | exact ⟨_, rfl⟩ | exact absurd h hlowest

theorem Phrase.joined {level level' : Level} {t : Token} {op : BinaryOp}
    (hop : BinaryOp.ofKind? t.kind = some op) (p : Phrase level)
    (hp : t.kind.power.rank ≤ level.rank) (r : Phrase level')
    (hr : t.kind.power.rank < level'.rank) : ∃ tier : Tier, tier.power = t.kind.power ∧
      ∃ q : Phrase (.tier tier), q.tokens = p.tokens ++ t :: r.tokens := by
  obtain ⟨tier, hmem⟩ := exists_tier hop
  obtain ⟨hpower, -⟩ := of_mem_operators hmem
  rw [hpower] at hp hr
  obtain ⟨p', hp', -⟩ := p.loosen (show (Level.tier tier).rank ≤ level.rank from hp)
  obtain ⟨r', hr', -⟩ := r.loosen (rank_operands_le hr)
  obtain ⟨q, hq, -⟩ := p'.join ⟨t, op, hmem⟩ r'
  exact ⟨tier, hpower.symm, q, by rw [hq, hp', hr']⟩

theorem opens_operand {power : Power} {left : Expr} {t : Token} {op : BinaryOp}
    {tokens : List Token} (hpower : power < t.kind.power)
    (hop : BinaryOp.ofKind? t.kind = some op) (h : Opens (.expr t.kind.power) tokens) :
    Opens (.extend power left) (t :: tokens) := by
  intro level p _ hkind
  obtain ⟨more, level', hlevel', r, hr⟩ := h
  obtain ⟨tier, htier, q, hq⟩ := p.joined hop hkind r hlevel'
  refine ⟨more, .tier tier, ?_, q, by rw [hq, hr]; simp⟩
  change power.rank < tier.power.rank
  rw [htier]
  exact hpower

theorem opens_behind {power : Power} {left more : Expr} {t : Token} {op : BinaryOp}
    {tokens : List Token} {level' : Level} (hpower : power < t.kind.power)
    (hop : BinaryOp.ofKind? t.kind = some op) (r : Phrase level')
    (hr : t.kind.power.rank < level'.rank)
    (hstop : (headKind tokens).power.rank ≤ t.kind.power.rank)
    (h : Opens (.extend power more) tokens) :
    Opens (.extend power left) (t :: r.tokens ++ tokens) := by
  intro level p _ hkind
  obtain ⟨tier, htier, q, hq⟩ := p.joined hop hkind r hr
  rw [← htier] at hpower hstop
  obtain ⟨rest, level'', hlevel'', q', hq'⟩ := h (.tier tier) q hpower hstop
  exact ⟨rest, level'', hlevel'', q', by rw [hq', hq]; simp⟩

theorem extend_faults {power : Power} {left : Expr} {extend : Expr → Parser Expr}
    (hexpr : ∀ power, Answers (.expr power) .expr (expr power))
    (hextend : ∀ more, Answers (.extend power more) .expr (extend more)) :
    Faults (.extend power left) (do
      let kind := (← get).kind
      if power < kind.power then
        let more ← binary expr left kind.power
        extend more
      else return left) := by
  intro c hc
  refine .look ?_
  dsimp only
  split
  · rename_i hpower
    have hne : c.kind ≠ .endOfFile := by
      intro hk
      rw [hk] at hpower
      exact Nat.not_lt_zero _ hpower
    unfold binary
    refine .bind (.bind (advance_outcome hc hne fun t d hn ht => ?_))
    rw [← ht] at hpower ⊢
    obtain ⟨op, hop⟩ := exists_operator hpower
    rw [hop]
    refine .bind ((hexpr _ d (hn.lexed hc)).mono (fun right d' hright => ?_) fun e d' h => ?_)
    · obtain ⟨level, hlevel, r, hr, -, hstop⟩ := reads_follows hright
      have hd' : c.Covers (t :: r.tokens) d' := hn.covers.append ⟨hr, hright.final⟩
      refine .bind (.of_ok (freshNode_run _ _) (.pure ?_))
      have htick : d'.tick.Lexed := ⟨(hd'.lexed hc).closed, (hd'.lexed hc).types⟩
      refine (hextend _ d'.tick htick).mono (fun _ _ _ => trivial) fun e d'' h => ?_
      obtain ⟨tokens, hcovers, hread⟩ := h.read
      have hcovers' : d'.Covers tokens d'' := ⟨hcovers.pending, hcovers.final⟩
      refine ⟨h.position, _, hd'.append hcovers', hread.imp_right fun ⟨hcause, hopens⟩ => ?_⟩
      refine ⟨hcause, opens_behind hpower hop r hlevel ?_ hopens⟩
      rw [kind_eq_headKind (hd'.lexed hc).closed, hcovers'.pending] at hstop
      cases tokens with
      | nil => exact Nat.zero_le _
      | cons t' tokens => exact hstop
    · exact h.after hn.covers fun tokens hopens => opens_operand hpower hop hopens
  · exact .pure trivial

/-! ## Statements -/

theorem typeName?_outcome {ok : Option Ty → Cursor → Prop} (hc : c.Lexed)
    (hok : ∀ ty d (word : Option TypeWord), c.Covers (typeTokens word) d →
      ty.isSome = word.isSome → ok ty d) : Outcome typeName? c ok bad := by
  refine .look ?_
  split
  · rename_i hk
    refine .bind (advance_outcome hc (by rw [hk]; decide) fun t d hn ht => ?_)
    obtain ⟨ty, hty⟩ := hc.types t (hn.1 ▸ List.mem_cons_self) (ht.trans hk)
    rw [hty]
    exact .pure (hok _ d (some ⟨t, ty, ht.trans hk, hty⟩) hn.covers rfl)
  · exact .pure (hok none c none .nil rfl)

def initTokens (init : Option (Word .assignment × Phrase .any)) : List Token :=
  init.toList.flatMap fun init => init.1.token :: init.2.tokens

theorem initializer?_outcome {tokens : List Token} {c₀ : Cursor}
    {ok : Option Expr → Cursor → Prop} (hexpr : Answers (.expr .lowest) .expr (expr .lowest))
    (hc : c₀.Lexed) (hcovers : c₀.Covers tokens c)
    (hopens : ∀ form, Opens .statement (tokens ++ initTokens (some form)))
    (hok : ∀ e d (init : Option (Word .assignment × Phrase .any)),
      c₀.Covers (tokens ++ initTokens init) d → e.isSome = init.isSome → ok e d) :
    Outcome (initializer? (expr .lowest)) c ok (Stops .statement c₀) := by
  refine .look ?_
  split
  · rename_i hk
    refine .bind (advance_outcome (hcovers.lexed hc) (by rw [hk]; decide) fun t d hn ht => ?_)
    let equals : Word .assignment := ⟨t, ht.trans hk⟩
    have hinit (q : Phrase .any) :
        tokens ++ [t] ++ q.tokens = tokens ++ initTokens (some (equals, q)) := by
      simp [initTokens, equals]
    refine .bind (hexpr.part hc (hcovers.append hn.covers) nofun (fun q => ?_) fun e d' q hq => ?_)
    · rw [hinit]
      exact hopens (equals, q)
    · rw [hinit] at hq
      exact .pure (hok _ d' (some (equals, q)) hq rfl)
  · refine .pure (hok none c none ?_ rfl)
    rw [initTokens, Option.toList_none, List.flatMap_nil, List.append_nil]
    exact hcovers

variable (hexpr : Answers (.expr .lowest) .expr (expr .lowest)) (hc : c.Lexed)
include hexpr hc

theorem varDeclaration_faults (hk : c.kind = .varWord) :
    Outcome (varDeclaration (expr .lowest)) c (fun _ _ => True) (Stops .statement c) := by
  refine .bind (advance_outcome hc (by rw [hk]; decide) fun t d hn ht => ?_)
  have hword := ht.trans hk
  refine .bind (expectDetailed_outcome (hn.lexed hc) (by decide) (fun name d₁ hn₁ hid => ?_)
    fun cause => .here hn.covers ⟨_, .varZero ⟨t, hword⟩ someName someType semicolon, rfl⟩)
  have h₁ := hn.covers.append hn₁.covers
  refine .bind (typeName?_outcome (h₁.lexed hc) fun ty d₂ word hword₂ hty => ?_)
  have hopens (form : Word .assignment × Phrase .any) :
      Opens .statement ([t] ++ [name] ++ typeTokens word ++ initTokens (some form)) :=
    ⟨[semicolon.token], .varInit ⟨t, hword⟩ ⟨name, hid⟩ word form.1 form.2 semicolon, by
      simp [Sentence.tokens, initTokens]⟩
  refine .bind (initializer?_outcome hexpr hc (h₁.append hword₂) hopens
    fun init d₃ form h₃ hinit => ?_)
  rw [← Option.not_isSome, ← Option.not_isSome, hty, hinit]
  dsimp only
  cases form with
  | some form =>
    rw [Option.isSome_some, Bool.not_true, Bool.and_false, if_neg (by decide)]
    exact closing_stops (h₃.lexed hc) h₃ (hopens form)
  | none =>
    cases word with
    | some word =>
      refine closing_stops (h₃.lexed hc) h₃ ⟨[semicolon.token],
        .varZero ⟨t, hword⟩ ⟨name, hid⟩ word semicolon, ?_⟩
      simp [Sentence.tokens, initTokens, typeTokens]
    | none =>
      exact .bind (failHere_outcome fun cause => .here h₃ ⟨[someType.token, semicolon.token],
        .varZero ⟨t, hword⟩ ⟨name, hid⟩ someType semicolon, rfl⟩)

theorem constDeclaration_faults (hk : c.kind = .constWord) :
    Outcome (constDeclaration (expr .lowest)) c (fun _ _ => True) (Stops .statement c) := by
  obtain ⟨any, -⟩ := exists_any
  refine .bind (advance_outcome hc (by rw [hk]; decide) fun t d hn ht => ?_)
  have hword := ht.trans hk
  refine .bind (expectDetailed_outcome (hn.lexed hc) (by decide) (fun name d₁ hn₁ hid => ?_)
    fun cause => .here hn.covers ⟨_, .const ⟨t, hword⟩ someName none equalsSign any semicolon, rfl⟩)
  have h₁ := hn.covers.append hn₁.covers
  refine .bind (typeName?_outcome (h₁.lexed hc) fun ty d₂ word hword₂ hty => ?_)
  have hopens (form : Word .assignment × Phrase .any) :
      Opens .statement ([t] ++ [name] ++ typeTokens word ++ initTokens (some form)) :=
    ⟨[semicolon.token], .const ⟨t, hword⟩ ⟨name, hid⟩ word form.1 form.2 semicolon, by
      simp [Sentence.tokens, initTokens]⟩
  refine .bind (initializer?_outcome hexpr hc (h₁.append hword₂) hopens
    fun init d₃ form h₃ hinit => ?_)
  cases form with
  | some form =>
    obtain ⟨e, rfl⟩ := Option.isSome_iff_exists.1 hinit
    exact closing_stops (h₃.lexed hc) h₃ (hopens form)
  | none =>
    obtain rfl : init = none := by simpa using hinit
    refine failHere_outcome fun cause => .here h₃
      ⟨equalsSign.token :: any.tokens ++ [semicolon.token],
        .const ⟨t, hword⟩ ⟨name, hid⟩ word equalsSign any semicolon, ?_⟩
    simp [Sentence.tokens, initTokens]

theorem assignment_faults :
    Outcome (assignment (expr .lowest)) c (fun _ _ => True) (Stops .statement c) := by
  obtain ⟨any, -⟩ := exists_any
  refine .bind (expect_outcome hc (by decide) (fun name d hn hid => ?_) (here_nil _ c))
  refine .bind (expect_outcome (hn.lexed hc) (by decide) (fun equals d₁ hn₁ heq => ?_)
    fun cause => .here hn.covers ⟨_, .assign ⟨name, hid⟩ equalsSign any semicolon, rfl⟩)
  have hopens (q : Phrase .any) : Opens .statement ([name] ++ [equals] ++ q.tokens) :=
    ⟨[semicolon.token], .assign ⟨name, hid⟩ ⟨equals, heq⟩ q semicolon, by simp [Sentence.tokens]⟩
  exact .bind (hexpr.part hc (hn.covers.append hn₁.covers) nofun hopens fun e d₂ q hq =>
    closing_stops (hq.lexed hc) hq (hopens q))

theorem printing_faults (hk : c.kind = .printWord) :
    Outcome (printing (expr .lowest)) c (fun _ _ => True) (Stops .statement c) := by
  refine .bind (advance_outcome hc (by rw [hk]; decide) fun t d hn ht => ?_)
  have hopens (q : Phrase .any) : Opens .statement ([t] ++ q.tokens) :=
    ⟨[semicolon.token], .print ⟨t, ht.trans hk⟩ q semicolon, by simp [Sentence.tokens]⟩
  exact .bind (hexpr.part hc hn.covers nofun hopens fun e d₁ q hq =>
    closing_stops (hq.lexed hc) hq (hopens q))

theorem exprStatement_faults :
    Outcome (exprStatement (expr .lowest)) c (fun _ _ => True) (Stops .statement c) := by
  have hopens (q : Phrase .any) : Opens .statement ([] ++ q.tokens) :=
    ⟨[semicolon.token], .expr q semicolon, by simp [Sentence.tokens]⟩
  exact .look (.bind (hexpr.part hc .nil nofun hopens fun e d q hq =>
    closing_stops (hq.lexed hc) hq (hopens q)))

theorem whileLoop_faults (hblock : Answers .block .block block) (hk : c.kind = .whileWord) :
    Outcome (whileLoop (expr .lowest) block) c (fun _ _ => True) (Stops .statement c) := by
  refine .bind (advance_outcome hc (by rw [hk]; decide) fun t d hn ht => ?_)
  have hopens (q : Phrase .any) (b : Braces) : Opens .statement ([t] ++ q.tokens ++ b.tokens) :=
    ⟨[], .whileLoop ⟨t, ht.trans hk⟩ q b, by simp [Sentence.tokens]⟩
  refine .bind (hexpr.part hc hn.covers nofun (fun q => (hopens q emptyBraces).of_append nofun)
    fun e d₁ q hq => ?_)
  refine .bind (hblock.braces hc hq nofun (hopens q) fun b d₂ _ _ => ?_)
  exact .bind (.of_ok (closeNode_run _ _) (.pure trivial))

theorem ifElse_faults (hblock : Answers .block .block block)
    (hcond : ∀ c, c.Lexed → c.kind = .ifWord →
      Outcome conditional c (fun _ _ => True) (Stops .conditional c))
    (hk : c.kind = .ifWord) :
    Outcome (ifElse (expr .lowest) block conditional) c (fun _ _ => True)
      (Stops .conditional c) := by
  refine .bind (advance_outcome hc (by rw [hk]; decide) fun t d hn ht => ?_)
  have hword := ht.trans hk
  have hopens (q : Phrase .any) (b : Braces) : Opens .conditional ([t] ++ q.tokens ++ b.tokens) :=
    ⟨[], .only ⟨t, hword⟩ q b, by simp [Conditional.tokens]⟩
  refine .bind (hexpr.part hc hn.covers nofun (fun q => (hopens q emptyBraces).of_append nofun)
    fun e d₁ q hq => ?_)
  refine .bind (hblock.braces hc hq nofun (hopens q) fun b d₂ form h₂ => ?_)
  have hclose {alternative : Option Block} {d : Cursor} :
      Outcome (do return Stmt.ifElse (← closeNode t.span.start) e b alternative) d
        (fun _ _ => True) (Stops .conditional c) :=
    .bind (.of_ok (closeNode_run _ _) (.pure trivial))
  refine .look ?_
  split
  · rename_i helse
    refine .bind (advance_outcome (h₂.lexed hc) (by rw [helse]; decide) fun t' d₃ hn' ht' => ?_)
    have hword' := ht'.trans helse
    have h₃ := h₂.append hn'.covers
    refine .bind (.look ?_)
    split
    · rename_i hif
      refine .bind ((hcond d₃ (h₃.lexed hc) hif).mono (fun s d₄ _ => ?_) fun e d₄ h => ?_)
      · exact .pure (.bind (.pure hclose))
      · refine h.after h₃ ?_
        rintro tokens ⟨more, s, hs⟩
        exact ⟨more, .elseIf ⟨t, hword⟩ q form ⟨t', hword'⟩ s, by simp [Conditional.tokens, hs]⟩
    · refine hblock.braces hc h₃ nofun (fun b' => ?_) fun b' d₄ _ _ => .bind (.pure hclose)
      exact ⟨[], .otherwise ⟨t, hword⟩ q form ⟨t', hword'⟩ b', by simp [Conditional.tokens]⟩
  · exact .bind (.pure hclose)

omit hexpr in
theorem loopControl_faults (hk : c.kind = .breakWord ∨ c.kind = .continueWord) :
    Outcome loopControl c (fun _ _ => True) (Stops .statement c) := by
  have hne : c.kind ≠ .endOfFile := by rcases hk with hk | hk <;> rw [hk] <;> decide
  refine .bind (advance_outcome hc hne fun t d hn ht => ?_)
  rw [← ht] at hk
  refine .bind (expect_outcome (hn.lexed hc) (by decide) (fun _ d₁ _ _ => ?_)
    fun cause => .here hn.covers ⟨[semicolon.token], ?_⟩)
  · exact .bind (.of_ok (closeNode_run _ _) (.pure trivial))
  · rcases hk with hk | hk
    · exact ⟨.breakLoop ⟨t, hk⟩ semicolon, rfl⟩
    · exact ⟨.continueLoop ⟨t, hk⟩ semicolon, rfl⟩

theorem statement_faults (hblock : Answers .block .block block)
    (hcond : ∀ c, c.Lexed → c.kind = .ifWord →
      Outcome conditional c (fun _ _ => True) (Stops .conditional c)) :
    Outcome (statement (expr .lowest) block conditional) c (fun _ _ => True)
      (Stops .statement c) := by
  refine .look ?_
  split
  case h_1 hk => exact varDeclaration_faults hexpr hc hk
  case h_2 hk => exact constDeclaration_faults hexpr hc hk
  case h_3 hk => exact printing_faults hexpr hc hk
  case h_4 hk =>
    refine (hcond c hc hk).mono (fun _ _ h => h) fun e d h => h.whole ?_
    rintro tokens ⟨more, s, hs⟩
    exact ⟨more, .conditional s, by rw [Sentence.tokens, hs]⟩
  case h_5 hk => exact whileLoop_faults hexpr hc hblock hk
  case h_6 hk => exact loopControl_faults hc (.inl hk)
  case h_7 hk => exact loopControl_faults hc (.inr hk)
  case h_8 =>
    split
    · exact assignment_faults hexpr hc
    · exact exprStatement_faults hexpr hc
  case h_9 => exact exprStatement_faults hexpr hc

end Constructs

/-! ## Sequences -/

theorem opens_sentences {s : Sentence} {tokens : List Token}
    (h : ∃ more, ∃ p : Sentences, p.tokens = tokens ++ more) :
    ∃ more, ∃ p : Sentences, p.tokens = s.tokens ++ tokens ++ more := by
  obtain ⟨more, p, hp⟩ := h
  exact ⟨more, .cons s p, by rw [Sentences.tokens, hp, List.append_assoc]⟩

theorem opens_sentence {tokens : List Token} (h : Opens .statement tokens) :
    ∃ more, ∃ p : Sentences, p.tokens = tokens ++ more := by
  obtain ⟨more, s, hs⟩ := h
  exact ⟨more, .cons s .nil, by rw [Sentences.tokens, Sentences.tokens, List.append_nil, hs]⟩

theorem braced_faults {body : Parser (List Stmt)} (hbody : Answers .body .stmts body) :
    Faults .block (braced body) := by
  intro c hc
  refine .bind (expect_outcome hc (by decide) (fun t d hn hk => ?_) (here_nil _ c))
  refine .bind ((hbody d (hn.lexed hc)).mono (fun inside d₁ hr => ?_) fun e d₁ h => ?_)
  · obtain ⟨p, hp, -⟩ := reads_follows hr
    have hcovers : d.Covers p.tokens d₁ := ⟨hp, hr.final⟩
    refine .bind (expect_outcome (hcovers.lexed (hn.lexed hc)) (by decide)
      (fun _ _ _ _ => .look (.pure trivial)) fun cause => .here (hn.covers.append hcovers) ?_)
    exact ⟨[closingCurly.token], .mk ⟨t, hk⟩ p closingCurly, by simp [Braces.tokens]⟩
  · refine h.after hn.covers ?_
    rintro tokens ⟨more, p, hp⟩
    exact ⟨more ++ [closingCurly.token], .mk ⟨t, hk⟩ p closingCurly, by simp [Braces.tokens, hp]⟩

theorem next_faults {g : Goal} {stmt : Parser Stmt} {more : Parser (List Stmt)} {c : Cursor}
    (hg : g = .body ∨ g = .program) (hstmt : Answers .statement .stmt stmt) (hmore : Faults g more)
    (hc : c.Lexed) :
    Outcome (do let s ← stmt; let rest ← more; return s :: rest) c (fun _ _ => True)
      (Stops g c) := by
  refine .bind ((hstmt c hc).mono (fun s d hr => ?_) fun e d h => h.whole fun tokens hopens => ?_)
  · obtain ⟨p, hp, -⟩ := reads_follows hr
    have hd : c.Covers p.tokens d := ⟨hp, hr.final⟩
    refine .bind ((hmore d (hd.lexed hc)).mono (fun _ _ _ => .pure trivial) fun e d' h => ?_)
    refine h.after hd fun tokens hopens => ?_
    rcases hg with rfl | rfl <;> exact opens_sentences hopens
  · rcases hg with rfl | rfl <;> exact opens_sentence hopens

/-! ## The whole grammar -/

/-- All parsers of the grammar with the budget `fuel` find faults only where there are some. -/
structure AllFault (fuel : Nat) : Prop where
  expr (power : Power) : Faults (.expr power) (Parser.expr fuel power)
  extend (power : Power) (left : Expr) :
    Faults (.extend power left) (Parser.extend fuel power left)
  block : Faults .block (Parser.block fuel)
  body : Faults .body (blockStatements fuel)
  conditional : ∀ c, c.Lexed → c.kind = .ifWord →
    Outcome (Parser.conditional fuel) c (fun _ _ => True) (Stops .conditional c)
  stmt : Faults .statement (Parser.stmt fuel)

theorem unexpected_faults {α : Type} (g : Goal) : Faults g (unexpected : Parser α) :=
  fun c _ => unexpected_outcome (here_nil g c)

theorem allFault (fuel : Nat) : AllFault fuel := by
  induction fuel with
  | zero =>
    exact {
      expr := fun _ => unexpected_faults _
      extend := fun _ _ => unexpected_faults _
      block := unexpected_faults _
      body := unexpected_faults _
      conditional := fun c hc _ => unexpected_faults _ c hc
      stmt := unexpected_faults _ }
  | succ fuel ih =>
    have hr := allReach fuel
    have hexpr (power : Power) := (ih.expr power).answers (hr.expr power)
    have hblock := ih.block.answers hr.block
    have hextend (power : Power) (left : Expr) :=
      (ih.extend power left).answers (hr.extend power left)
    refine {
      expr := fun power c hc => .bind ?_
      extend := fun power left => extend_faults hexpr (hextend power)
      block := braced_faults (ih.body.answers hr.body)
      body := fun c hc => .look ?_
      conditional := fun c hc hk => ifElse_faults (hexpr .lowest) hc hblock ih.conditional hk
      stmt := fun c hc => statement_faults (hexpr .lowest) hc hblock ih.conditional }
    · have hoperand := (operand_faults hexpr hblock).answers (operand_reaches hr.expr hr.block)
      refine (hoperand c hc).mono (fun left d hleft => ?_) fun e d h => h.whole ?_
      · obtain ⟨p, hp, -⟩ := reads_follows hleft
        have hd : c.Covers p.tokens d := ⟨hp, hleft.final⟩
        refine (ih.extend power left d (hd.lexed hc)).mono (fun _ _ h => h) fun e d' h => ?_
        refine h.after hd fun tokens hopens => ?_
        exact hopens .unary p (power_rank_lt power) (Nat.le_of_lt (power_rank_lt _))
      · rintro tokens ⟨more, p, hp⟩
        exact ⟨more, .unary, power_rank_lt power, p, hp⟩
    · split
      · exact .pure trivial
      · exact failHere_outcome (here_nil _ c)
      · exact next_faults (.inl rfl) (ih.stmt.answers hr.stmt) ih.body hc

theorem statements_faults (fuel : Nat) : Faults .program (statements fuel) := by
  induction fuel with
  | zero => exact unexpected_faults _
  | succ fuel ih =>
    intro c hc
    refine .look ?_
    split
    · exact .pure trivial
    · exact next_faults (.inr rfl) ((allFault fuel).stmt.answers (allReach fuel).stmt) ih hc

end Grammar

end Leveret
