import Leveret.Proofs.Layout.Alike

/-!
# Numbers in post-order

The nodes of a parsed program are numbered in post-order, from zero and without a gap. So where a
node stands in the tree says what its number is: programs with one outline have the same numbers
at the same nodes, wherever and however they were written.
-/

namespace Leveret

/-! ## Outlines of trees that are alike -/

mutual

theorem Expr.Alike.outline_eq {e e'} : Expr.Alike e e' → e.outline = e'.outline
  | .literal _ | .load _ => rfl
  | .unary _ h => by rw [Expr.outline, Expr.outline, h.outline_eq]
  | .binary _ h h' => by rw [Expr.outline, Expr.outline, h.outline_eq, h'.outline_eq]
  | .compound _ h => by rw [Expr.outline, Expr.outline, h.outline_eq]

theorem Block.Alike.outline_eq {b b'} : Block.Alike b b' → b.outline = b'.outline
  | .intro h => by rw [Block.outline, Block.outline, h.outline_eq]

theorem Stmt.Alike.outline_eq {s s'} : Stmt.Alike s s' → s.outline = s'.outline
  | .declareZero _ | .breakLoop | .continueLoop => rfl
  | .declareVar _ h => by
    rw [Stmt.outline, Stmt.outline, outlineInit, outlineInit, h.outline_eq]
  | .declareConst _ h | .assign h | .print h | .expr h => by
    rw [Stmt.outline, Stmt.outline, h.outline_eq]
  | .ifOnly h h' => by
    rw [Stmt.outline, Stmt.outline, outlineElse, h.outline_eq, h'.outline_eq]
  | .ifElse h h' h'' => by
    rw [Stmt.outline, Stmt.outline, outlineElse, outlineElse, h.outline_eq, h'.outline_eq,
      h''.outline_eq]
  | .whileLoop h h' => by rw [Stmt.outline, Stmt.outline, h.outline_eq, h'.outline_eq]

theorem AlikeAll.outline_eq {list list'} : AlikeAll list list' →
    outlineAll list = outlineAll list'
  | .nil => rfl
  | .cons h h' => by rw [outlineAll, outlineAll, h.outline_eq, h'.outline_eq]

end

theorem Program.outline_of_same {source source' file file' : String} {p q : Program}
    (hp : ofSource source file = .ok p) (hq : ofSource source' file' = .ok q)
    (hsame : p.same q = true) : p.outline = q.outline := (alike_of_same hp hq hsame).outline_eq

/-! ## The nodes of an outline -/

def Part.outline : Part → Part
  | expr e => .expr e.outline
  | stmt s => .stmt s.outline

/-- What a node is, apart from its span: its outline and its number. -/
def Part.numbered (part : Part) : Part × Nat := (part.outline, part.node.id)

mutual

theorem Expr.parts_outline : (e : Expr) → e.outline.parts = e.parts.map Part.outline
  | .literal _ _ | .load _ _ => rfl
  | .unary _ op operand => by
    rw [Expr.outline, Expr.parts, Expr.parts, operand.parts_outline, List.map_append]
    rfl
  | .binary _ op left right => by
    rw [Expr.outline, Expr.parts, Expr.parts, left.parts_outline, right.parts_outline,
      List.map_append, List.map_append]
    rfl
  | .compound _ body => by
    rw [Expr.outline, Expr.parts, Expr.parts, body.parts_outline, List.map_append]
    rfl

theorem Block.parts_outline : (b : Block) → b.outline.parts = b.parts.map Part.outline
  | ⟨_, statements⟩ => by rw [Block.outline, Block.parts, Block.parts, partsAll_outline]

theorem Stmt.parts_outline : (s : Stmt) → s.outline.parts = s.parts.map Part.outline
  | .declareVar _ _ _ none | .breakLoop _ | .continueLoop _ => rfl
  | .declareVar _ _ _ (some init) => by
    rw [Stmt.outline, outlineInit, Stmt.parts, Stmt.parts, init.parts_outline, List.map_append]
    rfl
  | .declareConst _ _ _ init => by
    rw [Stmt.outline, Stmt.parts, Stmt.parts, init.parts_outline, List.map_append]
    rfl
  | .assign _ _ value | .print _ value | .expr _ value => by
    rw [Stmt.outline, Stmt.parts, Stmt.parts, value.parts_outline, List.map_append]
    rfl
  | .ifElse _ condition consequence none => by
    rw [Stmt.outline, outlineElse, Stmt.parts, Stmt.parts, condition.parts_outline,
      consequence.parts_outline, List.map_append, List.map_append]
    rfl
  | .ifElse _ condition consequence (some alternative) => by
    rw [Stmt.outline, outlineElse, Stmt.parts, Stmt.parts, condition.parts_outline,
      consequence.parts_outline, alternative.parts_outline, List.map_append, List.map_append,
      List.map_append]
    rfl
  | .whileLoop _ condition body => by
    rw [Stmt.outline, Stmt.parts, Stmt.parts, condition.parts_outline, body.parts_outline,
      List.map_append, List.map_append]
    rfl

theorem partsAll_outline : (list : List Stmt) →
    partsAll (outlineAll list) = (partsAll list).map Part.outline
  | [] => rfl
  | s :: rest => by
    rw [outlineAll, partsAll, partsAll, s.parts_outline, partsAll_outline rest, List.map_append]

end

/-- Nodes that are numbered from zero in order are known by their outlines. -/
theorem numbered_of_range {l l' : List Part} (hl : numbers l = List.range l.length)
    (hl' : numbers l' = List.range l'.length) (h : l.map Part.outline = l'.map Part.outline) :
    l.map Part.numbered = l'.map Part.numbered := by
  have hlength : l.length = l'.length := by simpa using congrArg List.length h
  have hzip (l : List Part) : l.map Part.numbered = (l.map Part.outline).zip (numbers l) := by
    unfold numbers Part.numbered
    rw [List.zip_map']
  rw [hzip, hzip, hl, hl', h, hlength]

/-! ## Whole programs -/

/-- The nodes of a parsed program have the numbers from zero on, each of them once and in
post-order, so that the numbers are those of every other program with its outline. -/
theorem Program.ofTokens_postorder {tokens : List Token} {file : String} {p : Program}
    (h : Program.ofTokens tokens file = .ok p) :
    numbers p.parts = List.range p.parts.length ∧ (numbers p.parts).Nodup ∧
    ∀ tokens' file' q, Program.ofTokens tokens' file' = .ok q → p.outline = q.outline →
      p.parts.map Part.numbered = q.parts.map Part.numbered := by
  have hp := Program.numbers_ofTokens h
  refine ⟨hp, hp ▸ List.nodup_range, fun tokens' file' q hq hout => ?_⟩
  refine numbered_of_range hp (Program.numbers_ofTokens hq) ?_
  unfold Program.parts
  rw [← partsAll_outline, ← partsAll_outline]
  exact congrArg partsAll hout

theorem Program.exists_ofTokens_postorder : ∃ p q,
    ofSource "if a < (1 + 2) \x7b x = \x7b 3; \x7d; \x7d else if -b \x7b print x; \x7d" "one" =
      .ok p ∧
    ofSource "if (a) < 1+2 \x7bx = \x7b3;\x7d;\x7d\nelse if (-b) \x7bprint x;\x7d" "two" =
      .ok q ∧
    numbers p.parts = List.range 15 ∧ (numbers p.parts).Nodup ∧
    p.parts.map Part.numbered = q.parts.map Part.numbered := by
  have hsame : (ofSource "if a < (1 + 2) \x7b x = \x7b 3; \x7d; \x7d else if -b \x7b print x; \x7d"
      "one").toOption.bind (fun p => (ofSource
        "if (a) < 1+2 \x7bx = \x7b3;\x7d;\x7d\nelse if (-b) \x7bprint x;\x7d" "two").toOption.map
        fun q => (p.same q, p.parts.length)) = some (true, 15) := by decide +kernel
  obtain ⟨p, hp, hsame⟩ := Option.bind_eq_some_iff.1 hsame
  obtain ⟨q, hq, hsame⟩ := Option.map_eq_some_iff.1 hsame
  obtain ⟨hsame, hlength⟩ := Prod.mk.inj hsame
  have hp := toOption_eq_some.1 hp
  have hq := toOption_eq_some.1 hq
  obtain ⟨tokens, -, htokens⟩ := bind_eq_ok.1 hp
  obtain ⟨tokens', -, htokens'⟩ := bind_eq_ok.1 hq
  obtain ⟨hrange, hnodup, hstructure⟩ := ofTokens_postorder htokens
  exact ⟨p, q, hp, hq, hlength ▸ hrange, hnodup,
    hstructure tokens' "two" q htokens' (outline_of_same hp hq hsame)⟩

end Leveret
