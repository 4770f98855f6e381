import Leveret.Proofs.Parsing.Runs
import Leveret.Tree.Postorder

/-!
# Node numbers

The nodes of a parsed tree carry the numbers handed out while it was read, children before
parents and without a gap. So no two nodes of a program share a number.
-/

namespace Leveret

def numbers (parts : List Part) : List Nat := parts.map (·.node.id)

@[simp]
theorem numbers_nil : numbers [] = [] := rfl

@[simp]
theorem numbers_append (l l' : List Part) : numbers (l ++ l') = numbers l ++ numbers l' :=
  List.map_append

@[simp]
theorem numbers_singleton (part : Part) : numbers [part] = [part.node.id] := rfl

namespace Cursor

/-- The numbers in `list` are the ones handed out between `c` and `d`. -/
def Numbers (c : Cursor) (list : List Nat) (d : Cursor) : Prop :=
  ∃ k, list = List.range' c.nextId k ∧ d.nextId = c.nextId + k

variable {c d e : Cursor} {list list' : List Nat} {t : Token}

theorem Numbers.none (h : d.nextId = c.nextId) : c.Numbers [] d := ⟨0, rfl, h⟩

theorem Numbers.append (h : c.Numbers list d) (h' : d.Numbers list' e) :
    c.Numbers (list ++ list') e := by
  obtain ⟨k, rfl, hd⟩ := h
  obtain ⟨k', rfl, he⟩ := h'
  refine ⟨k + k', ?_, by omega⟩
  rw [hd, List.range'_append_1]

theorem Numbers.tick (h : c.Numbers list d) : c.Numbers (list ++ [d.nextId]) d.tick :=
  h.append ⟨1, rfl, rfl⟩

theorem Numbers.after (hn : c.Next t d) (h : d.Numbers list e) : c.Numbers list e :=
  Numbers.append (.none hn.nextId) h

theorem Numbers.before (h : c.Numbers list d) (hn : d.Next t e) : c.Numbers list e := by
  have h' := h.append (.none hn.nextId)
  rwa [List.append_nil] at h'

end Cursor

namespace Parser

open Cursor (Numbers)

def Piece.parts : Piece → List Part
  | .expr e => e.parts
  | .block b => b.parts
  | .stmt s => s.parts
  | .stmts list => partsAll list

def Goal.given : Goal → List Part
  | .extend _ left => left.parts
  | _ => []

theorem ReadsType.nextId {c d : Cursor} {ty : Option Ty} (h : ReadsType c ty d) :
    d.nextId = c.nextId := by
  cases h with
  | missing => rfl
  | stated hn => exact hn.nextId

/-- The nodes that are read take the numbers handed out meanwhile, in order. -/
theorem Reads.numbered {g : Goal} {c d : Cursor} {p : Piece} (h : Reads g c p d) :
    ∃ list, numbers p.parts = numbers g.given ++ list ∧ c.Numbers list d := by
  induction h with
  | literal hn _ | name hn _ => exact ⟨_, rfl, .after hn (.tick (.none rfl))⟩
  | signed hn _ _ ih =>
    obtain ⟨l, hl, h⟩ := ih
    refine ⟨_, ?_, .after hn h.tick⟩
    simpa [Piece.parts, Goal.given, Expr.parts, Part.node, Expr.node] using hl
  | group hn _ _ hn' _ ih =>
    obtain ⟨l, hl, h⟩ := ih
    exact ⟨l, hl, .after hn (h.before hn')⟩
  | compound _ _ ih =>
    obtain ⟨l, hl, h⟩ := ih
    refine ⟨_, ?_, h.tick⟩
    simpa [Piece.parts, Goal.given, Expr.parts, Part.node, Expr.node] using hl
  | expr _ _ iho ihx =>
    obtain ⟨l, hl, h⟩ := iho
    obtain ⟨l', hl', h'⟩ := ihx
    refine ⟨_, ?_, h.append h'⟩
    simp [Piece.parts, Goal.given] at hl hl' ⊢
    rw [hl', hl]
  | stop => exact ⟨[], by simp [Piece.parts, Goal.given], .none rfl⟩
  | join _ hn _ _ _ ihr ihx =>
    obtain ⟨l, hl, h⟩ := ihr
    obtain ⟨l', hl', h'⟩ := ihx
    refine ⟨_, ?_, .after hn (h.tick.append h')⟩
    simp [Piece.parts, Goal.given, Expr.parts, Part.node, Expr.node] at hl hl' ⊢
    rw [hl', hl]
  | block hn _ _ hn' _ ih =>
    obtain ⟨l, hl, h⟩ := ih
    refine ⟨l, ?_, .after hn (h.before hn')⟩
    simpa [Piece.parts, Goal.given, Block.parts] using hl
  | bodyEnd | programEnd => exact ⟨[], rfl, .none rfl⟩
  | bodyNext _ _ _ _ ihs ihr | programNext _ _ _ ihs ihr =>
    obtain ⟨l, hl, h⟩ := ihs
    obtain ⟨l', hl', h'⟩ := ihr
    refine ⟨_, ?_, h.append h'⟩
    simp [Piece.parts, Goal.given, partsAll] at hl hl' ⊢
    rw [hl, hl']
  | ifOnly hn _ _ _ _ ihe ihb | whileLoop hn _ _ _ ihe ihb =>
    obtain ⟨l, hl, h⟩ := ihe
    obtain ⟨l', hl', h'⟩ := ihb
    refine ⟨_, ?_, .after hn (h.append h').tick⟩
    simp [Piece.parts, Goal.given, Stmt.parts, Part.node, Stmt.node, Cursor.closing] at hl hl' ⊢
    rw [hl, hl']
  | ifElse hn _ _ _ hn' _ _ _ ihe ihb ihb' =>
    obtain ⟨l, hl, h⟩ := ihe
    obtain ⟨l', hl', h'⟩ := ihb
    obtain ⟨l'', hl'', h''⟩ := ihb'
    refine ⟨_, ?_, .after hn (((h.append h').before hn').append h'').tick⟩
    simp [Piece.parts, Goal.given, Stmt.parts, Part.node, Stmt.node, Cursor.closing]
      at hl hl' hl'' ⊢
    rw [hl, hl', hl'']
  | ifChain hn _ _ _ hn' _ _ _ ihe ihb ihb' =>
    obtain ⟨l, hl, h⟩ := ihe
    obtain ⟨l', hl', h'⟩ := ihb
    obtain ⟨l'', hl'', h''⟩ := ihb'
    refine ⟨_, ?_, .after hn (((h.append h').before hn').append h'').tick⟩
    simp [Piece.parts, Goal.given, Stmt.parts, Block.parts, partsAll, Part.node, Stmt.node,
      Cursor.closing] at hl hl' hl'' ⊢
    rw [hl, hl', hl'']
  | varZero hn _ hn' _ hty hs _ =>
    exact ⟨_, rfl, .after hn (.after hn' (.tick (.before (.none hty.nextId) hs)))⟩
  | varInit hn _ hn' _ hty heq _ _ hs _ ih | const hn _ hn' _ hty heq _ _ hs _ ih =>
    obtain ⟨l, hl, h⟩ := ih
    refine ⟨_, ?_, .after hn (.after hn' (.append (.none hty.nextId)
      (.after heq (h.before hs).tick)))⟩
    simpa [Piece.parts, Goal.given, Stmt.parts, Part.node, Stmt.node, Cursor.closing] using hl
  | assign hn _ heq _ _ hs _ ih =>
    obtain ⟨l, hl, h⟩ := ih
    refine ⟨_, ?_, .after hn (.after heq (h.before hs).tick)⟩
    simpa [Piece.parts, Goal.given, Stmt.parts, Part.node, Stmt.node, Cursor.closing] using hl
  | print hn _ _ hs _ ih =>
    obtain ⟨l, hl, h⟩ := ih
    refine ⟨_, ?_, .after hn (h.before hs).tick⟩
    simpa [Piece.parts, Goal.given, Stmt.parts, Part.node, Stmt.node, Cursor.closing] using hl
  | conditional _ _ ih => exact ih
  | breakLoop hn _ hs _ | continueLoop hn _ hs _ =>
    exact ⟨_, rfl, .after hn (.after hs (.tick (.none rfl)))⟩
  | exprStatement _ _ _ hs _ ih =>
    obtain ⟨l, hl, h⟩ := ih
    refine ⟨_, ?_, (h.before hs).tick⟩
    simpa [Piece.parts, Goal.given, Stmt.parts, Part.node, Stmt.node, Cursor.closing] using hl

end Parser

/-! ## Declarations -/

/-- A declaration with neither a type nor an initial value. -/
def Part.Bare : Part → Prop
  | .stmt (.declareVar _ _ none none) => True
  | _ => False

theorem Parser.Reads.not_bare {g : Goal} {c d : Cursor} {p : Piece} (h : Reads g c p d)
    (hg : ∀ x ∈ g.given, ¬ x.Bare) : ∀ x ∈ p.parts, ¬ x.Bare := by
  induction h <;>
    simp_all [Piece.parts, Goal.given, Expr.parts, Stmt.parts, Block.parts, partsAll, Part.Bare,
      or_imp]

/-! ## Whole programs -/

section Program

variable {tokens : List Token} {file : String} {p : Program}

theorem Program.numbers_ofTokens (h : Program.ofTokens tokens file = .ok p) :
    numbers p.parts = List.range p.parts.length := by
  obtain ⟨d, hr, -⟩ := Program.ofTokens_eq_ok.1 h
  obtain ⟨l, hl, k, rfl, -⟩ := hr.numbered
  rw [(Cursor.ofTokens_start tokens file).2] at hl
  have hl : numbers p.parts = List.range' 0 k := hl
  have hk : p.parts.length = k := by
    rw [← List.length_range' (s := 0) (n := k), ← hl]
    exact (List.length_map _).symm
  rw [hl, hk, List.range_eq_range']

theorem Program.not_bare_ofTokens (h : Program.ofTokens tokens file = .ok p) :
    ∀ x ∈ p.parts, ¬ x.Bare := by
  obtain ⟨d, hr, -⟩ := Program.ofTokens_eq_ok.1 h
  exact hr.not_bare (by simp [Parser.Goal.given])

end Program

end Leveret
