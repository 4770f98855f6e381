import Leveret.Proofs.Steps
import Leveret.Tree.Parser

/-!
# What a parser reads

The successful runs of the parser as a relation between two places of the cursor: what stands
between them, and which tree is made of it. Nothing is said of budgets here, and every fact about
trees that were parsed is an induction on this relation.
-/

namespace Leveret

namespace Cursor

/-- The list of tokens ends in an end-of-file token. -/
def Closed (c : Cursor) : Prop := c.final.kind = .endOfFile

def Next (c : Cursor) (t : Token) (d : Cursor) : Prop :=
  c.pending = t :: d.pending ∧ d = c.advance

def tick (c : Cursor) : Cursor := { c with nextId := c.nextId + 1 }

def closing (c : Cursor) (start : Position) : Node := ⟨c.nextId, ⟨start, c.previousEnd⟩⟩

variable {c d : Cursor} {t : Token}

@[simp, grind =]
theorem tick_final : c.tick.final = c.final := rfl

@[simp, grind =]
theorem tick_pending : c.tick.pending = c.pending := rfl

@[simp, grind =]
theorem tick_nextId : c.tick.nextId = c.nextId + 1 := rfl

theorem Next.current (h : c.Next t d) : c.current = t := by
  rw [Cursor.current, h.1]
  rfl

theorem Next.kind (h : c.Next t d) : c.kind = t.kind := by
  rw [Cursor.kind, h.current]

@[grind →]
theorem Next.final (h : c.Next t d) : d.final = c.final := by
  rw [h.2, advance]
  split <;> rfl

@[grind →]
theorem Next.length (h : c.Next t d) : c.pending.length = d.pending.length + 1 := by
  rw [h.1, List.length_cons]

theorem Next.closed (h : c.Next t d) (hc : c.Closed) : d.Closed := by
  rw [Closed, h.final]
  exact hc

@[grind →]
theorem Next.nextId (h : c.Next t d) : d.nextId = c.nextId := by
  rw [h.2, advance]
  split <;> rfl

theorem next_of_kind (hc : c.Closed) (hk : c.kind ≠ .endOfFile) : c.Next c.current c.advance := by
  cases hp : c.pending with
  | nil =>
    rw [Cursor.kind, current, hp] at hk
    exact absurd hc hk
  | cons t rest => exact ⟨by simp [current, advance, hp], rfl⟩

end Cursor

def Token.literal? (t : Token) : Option Value :=
  match t.kind with
  | .integer => (readInt32? t.text.toList).map .int
  | .float => (Double.read? t.text.toList).map .float
  | .trueWord => some (.bool true)
  | .falseWord => some (.bool false)
  | _ => none

namespace Parser

inductive Goal where
  | operand
  | expr (power : Power)
  | extend (power : Power) (left : Expr)
  | block
  | body
  | conditional
  | statement
  | program

inductive Piece where
  | expr (e : Expr)
  | block (b : Block)
  | stmt (s : Stmt)
  | stmts (list : List Stmt)

inductive ReadsType : Cursor → Option Ty → Cursor → Prop where
  | missing {c} : c.kind ≠ .typeName → ReadsType c none c
  | stated {c t d ty} : c.Next t d → t.kind = .typeName → Ty.ofName? t.text = some ty →
      ReadsType c (some ty) d

inductive Reads : Goal → Cursor → Piece → Cursor → Prop where
  | literal {c t d value} : c.Next t d → t.literal? = some value →
      Reads .operand c (.expr (.literal ⟨d.nextId, t.span⟩ value)) d.tick
  | name {c t d} : c.Next t d → t.kind = .identifier →
      Reads .operand c (.expr (.load ⟨d.nextId, t.span⟩ t.text)) d.tick
  | signed {c t d op e d'} : c.Next t d → UnaryOp.ofKind? t.kind = some op →
      Reads (.expr .unary) d (.expr e) d' →
      Reads .operand c
        (.expr (.unary ⟨d'.nextId, ⟨t.span.start, e.node.span.stop⟩⟩ op e)) d'.tick
  | group {c t d e d' t' c'} : c.Next t d → t.kind = .openParen →
      Reads (.expr .lowest) d (.expr e) d' → d'.Next t' c' → t'.kind = .closeParen →
      Reads .operand c (.expr e) c'
  | compound {c b d} : c.kind = .openCurly → Reads .block c (.block b) d →
      Reads .operand c (.expr (.compound ⟨d.nextId, b.span⟩ b)) d.tick
  | expr {c power left d e c'} : Reads .operand c (.expr left) d →
      Reads (.extend power left) d (.expr e) c' → Reads (.expr power) c (.expr e) c'
  | stop {c power left} : ¬ power < c.kind.power →
      Reads (.extend power left) c (.expr left) c
  | join {c power left t d op right d' e c'} : power < t.kind.power → c.Next t d →
      BinaryOp.ofKind? t.kind = some op → Reads (.expr t.kind.power) d (.expr right) d' →
      Reads (.extend power (.binary ⟨d'.nextId, ⟨left.node.span.start, right.node.span.stop⟩⟩ op
        left right)) d'.tick (.expr e) c' →
      Reads (.extend power left) c (.expr e) c'
  | block {c t d inside d' t' c'} : c.Next t d → t.kind = .openCurly →
      Reads .body d (.stmts inside) d' → d'.Next t' c' → t'.kind = .closeCurly →
      Reads .block c (.block ⟨⟨t.span.start, c'.previousEnd⟩, inside⟩) c'
  | bodyEnd {c} : c.kind = .closeCurly → Reads .body c (.stmts []) c
  | bodyNext {c s d rest c'} : c.kind ≠ .closeCurly → c.kind ≠ .endOfFile →
      Reads .statement c (.stmt s) d → Reads .body d (.stmts rest) c' →
      Reads .body c (.stmts (s :: rest)) c'
  | ifOnly {c t c₁ test c₂ b c₃} : c.Next t c₁ → t.kind = .ifWord →
      Reads (.expr .lowest) c₁ (.expr test) c₂ → Reads .block c₂ (.block b) c₃ →
      c₃.kind ≠ .elseWord →
      Reads .conditional c (.stmt (.ifElse (c₃.closing t.span.start) test b none)) c₃.tick
  | ifElse {c t c₁ test c₂ b c₃ t' c₄ b' c₅} : c.Next t c₁ → t.kind = .ifWord →
      Reads (.expr .lowest) c₁ (.expr test) c₂ → Reads .block c₂ (.block b) c₃ →
      c₃.Next t' c₄ → t'.kind = .elseWord → c₄.kind ≠ .ifWord → Reads .block c₄ (.block b') c₅ →
      Reads .conditional c (.stmt (.ifElse (c₅.closing t.span.start) test b (some b'))) c₅.tick
  | ifChain {c t c₁ test c₂ b c₃ t' c₄ s c₅} : c.Next t c₁ → t.kind = .ifWord →
      Reads (.expr .lowest) c₁ (.expr test) c₂ → Reads .block c₂ (.block b) c₃ →
      c₃.Next t' c₄ → t'.kind = .elseWord → c₄.kind = .ifWord →
      Reads .conditional c₄ (.stmt s) c₅ →
      Reads .conditional c
        (.stmt (.ifElse (c₅.closing t.span.start) test b (some ⟨s.node.span, [s]⟩))) c₅.tick
  | varZero {c t c₁ name c₂ ty c₃ t' c'} : c.Next t c₁ → t.kind = .varWord → c₁.Next name c₂ →
      name.kind = .identifier → ReadsType c₂ (some ty) c₃ → c₃.Next t' c' →
      t'.kind = .semicolon →
      Reads .statement c
        (.stmt (.declareVar (c'.closing t.span.start) name.text (some ty) none)) c'.tick
  | varInit {c t c₁ name c₂ declared c₃ eq c₄ init c₅ t' c'} : c.Next t c₁ →
      t.kind = .varWord → c₁.Next name c₂ → name.kind = .identifier → ReadsType c₂ declared c₃ →
      c₃.Next eq c₄ → eq.kind = .assignment → Reads (.expr .lowest) c₄ (.expr init) c₅ →
      c₅.Next t' c' → t'.kind = .semicolon →
      Reads .statement c
        (.stmt (.declareVar (c'.closing t.span.start) name.text declared (some init))) c'.tick
  | const {c t c₁ name c₂ declared c₃ eq c₄ init c₅ t' c'} : c.Next t c₁ →
      t.kind = .constWord → c₁.Next name c₂ → name.kind = .identifier →
      ReadsType c₂ declared c₃ → c₃.Next eq c₄ → eq.kind = .assignment →
      Reads (.expr .lowest) c₄ (.expr init) c₅ → c₅.Next t' c' → t'.kind = .semicolon →
      Reads .statement c
        (.stmt (.declareConst (c'.closing t.span.start) name.text declared init)) c'.tick
  | assign {c name c₁ eq c₂ value c₃ t' c'} : c.Next name c₁ → name.kind = .identifier →
      c₁.Next eq c₂ → eq.kind = .assignment → Reads (.expr .lowest) c₂ (.expr value) c₃ →
      c₃.Next t' c' → t'.kind = .semicolon →
      Reads .statement c (.stmt (.assign (c'.closing name.span.start) name.text value)) c'.tick
  | print {c t c₁ value c₂ t' c'} : c.Next t c₁ → t.kind = .printWord →
      Reads (.expr .lowest) c₁ (.expr value) c₂ → c₂.Next t' c' → t'.kind = .semicolon →
      Reads .statement c (.stmt (.print (c'.closing t.span.start) value)) c'.tick
  | conditional {c s c'} : c.kind = .ifWord → Reads .conditional c (.stmt s) c' →
      Reads .statement c (.stmt s) c'
  | whileLoop {c t c₁ test c₂ b c'} : c.Next t c₁ → t.kind = .whileWord →
      Reads (.expr .lowest) c₁ (.expr test) c₂ → Reads .block c₂ (.block b) c' →
      Reads .statement c (.stmt (.whileLoop (c'.closing t.span.start) test b)) c'.tick
  | breakLoop {c t c₁ t' c'} : c.Next t c₁ → t.kind = .breakWord → c₁.Next t' c' →
      t'.kind = .semicolon →
      Reads .statement c (.stmt (.breakLoop (c'.closing t.span.start))) c'.tick
  | continueLoop {c t c₁ t' c'} : c.Next t c₁ → t.kind = .continueWord → c₁.Next t' c' →
      t'.kind = .semicolon →
      Reads .statement c (.stmt (.continueLoop (c'.closing t.span.start))) c'.tick
  | exprStatement {c e d t' c'} : c.kind.startsStatement = false →
      ¬ (c.kind = .identifier ∧ c.nextKind = .assignment) →
      Reads (.expr .lowest) c (.expr e) d → d.Next t' c' → t'.kind = .semicolon →
      Reads .statement c (.stmt (.expr (c'.closing c.position) e)) c'.tick
  | programEnd {c} : c.kind = .endOfFile → Reads .program c (.stmts []) c
  | programNext {c s d rest c'} : c.kind ≠ .endOfFile → Reads .statement c (.stmt s) d →
      Reads .program d (.stmts rest) c' → Reads .program c (.stmts (s :: rest)) c'

/-! ## Steps -/

section Steps

variable {c d : Cursor} {t : Token} {kind : Kind}

theorem advance_run (c : Cursor) : advance.run c = .ok c.current c.advance := rfl

theorem advance_of_next (h : c.Next t d) : advance.run c = .ok t d := by
  rw [advance_run, h.current, ← h.2]

theorem freshNode_run (span : Span) (c : Cursor) :
    (freshNode span).run c = .ok ⟨c.nextId, span⟩ c.tick := rfl

theorem closeNode_run (start : Position) (c : Cursor) :
    (closeNode start).run c = .ok (c.closing start) c.tick := rfl

theorem expect_of_next (h : c.Next t d) (hk : t.kind = kind) : (expect kind).run c = .ok t d := by
  rw [expect, run_get_bind, if_pos (h.kind.trans hk), advance_of_next h]

theorem expectDetailed_of_next {message : String} (h : c.Next t d) (hk : t.kind = kind) :
    (expectDetailed kind message).run c = .ok t d := by
  rw [expectDetailed, run_get_bind, if_pos (h.kind.trans hk), advance_of_next h]

theorem typeName?_of_reads {ty : Option Ty} (h : ReadsType c ty d) :
    typeName?.run c = .ok ty d := by
  rw [typeName?, run_get_bind]
  cases h with
  | missing hk => rw [if_neg hk]; rfl
  | stated hn hk hty =>
    rw [if_pos (hn.kind.trans hk), run_bind_of_ok (advance_of_next hn), hty]
    rfl

theorem expect_eq_ok (hc : c.Closed) (hk : kind ≠ .endOfFile) :
    (expect kind).run c = .ok t d ↔ c.Next t d ∧ t.kind = kind := by
  refine ⟨fun h => ?_, fun h => expect_of_next h.1 h.2⟩
  rw [expect, run_get_bind] at h
  split at h
  · rename_i hk'
    cases h
    exact ⟨Cursor.next_of_kind hc (hk' ▸ hk), hk'⟩
  · simp [unexpected, run_throw] at h

theorem expectDetailed_eq_ok {message : String} (hc : c.Closed) (hk : kind ≠ .endOfFile) :
    (expectDetailed kind message).run c = .ok t d ↔ c.Next t d ∧ t.kind = kind := by
  rw [← expect_eq_ok hc hk, expectDetailed, expect, run_get_bind, run_get_bind]
  split
  · exact Iff.rfl
  · simp [unexpected, failHere, run_throw]

theorem typeName?_eq_ok {ty : Option Ty} (hc : c.Closed) :
    typeName?.run c = .ok ty d ↔ ReadsType c ty d := by
  refine ⟨fun h => ?_, typeName?_of_reads⟩
  rw [typeName?, run_get_bind] at h
  split at h
  · rename_i hk
    rw [run_bind_of_ok (advance_run c)] at h
    split at h
    · rename_i ty' hty
      cases h
      exact .stated (Cursor.next_of_kind hc (by rw [hk]; decide)) hk hty
    · simp [run_throw] at h
  · rename_i hk
    cases h
    exact .missing hk

theorem ReadsType.final {ty : Option Ty} (h : ReadsType c ty d) : d.final = c.final := by
  cases h with
  | missing => rfl
  | stated hn => exact hn.final

@[grind →]
theorem ReadsType.length {ty : Option Ty} (h : ReadsType c ty d) :
    d.pending.length ≤ c.pending.length := by
  cases h with
  | missing => exact Nat.le_refl _
  | stated hn => rw [hn.length]; omega

theorem ReadsType.closed {ty : Option Ty} (h : ReadsType c ty d) (hc : c.Closed) : d.Closed := by
  rw [Cursor.Closed, h.final]
  exact hc

theorem Reads.final {g : Goal} {p : Piece} (h : Reads g c p d) : d.final = c.final := by
  induction h <;> grind [ReadsType.final]

theorem Reads.closed {g : Goal} {p : Piece} (h : Reads g c p d) (hc : c.Closed) : d.Closed := by
  rw [Cursor.Closed, h.final]
  exact hc

end Steps

end Parser

end Leveret
