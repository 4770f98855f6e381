import Leveret.Proofs.Printing.RoundTrip

/-!
# Trees that differ in layout

Two trees are alike if they differ only in the places they were read from. Programs that are read
from two texts and are the same are alike: numbers go up from node to node, so the form of a tree
decides them, and constants have no sign of their own, so those that are equal as numbers are equal.
-/

namespace Leveret

mutual

/-- The expressions are built alike, and so are the numbers of their nodes. -/
inductive Expr.Alike : Expr → Expr → Prop
  | literal {node node' value} : node.id = node'.id →
      Expr.Alike (.literal node value) (.literal node' value)
  | unary {node node' op operand operand'} : node.id = node'.id → Expr.Alike operand operand' →
      Expr.Alike (.unary node op operand) (.unary node' op operand')
  | binary {node node' op left left' right right'} : node.id = node'.id →
      Expr.Alike left left' → Expr.Alike right right' →
      Expr.Alike (.binary node op left right) (.binary node' op left' right')
  | load {node node' name} : node.id = node'.id → Expr.Alike (.load node name) (.load node' name)
  | compound {node node' body body'} : node.id = node'.id → Block.Alike body body' →
      Expr.Alike (.compound node body) (.compound node' body')

inductive Block.Alike : Block → Block → Prop
  | intro {span span' list list'} : AlikeAll list list' →
      Block.Alike ⟨span, list⟩ ⟨span', list'⟩

inductive Stmt.Alike : Stmt → Stmt → Prop
  | declareZero {node node' name declared} : node.id = node'.id →
      Stmt.Alike (.declareVar node name declared none) (.declareVar node' name declared none)
  | declareVar {node node' name declared init init'} : node.id = node'.id →
      Expr.Alike init init' →
      Stmt.Alike (.declareVar node name declared (some init))
        (.declareVar node' name declared (some init'))
  | declareConst {node node' name declared init init'} : node.id = node'.id →
      Expr.Alike init init' →
      Stmt.Alike (.declareConst node name declared init) (.declareConst node' name declared init')
  | assign {node node' name value value'} : Expr.Alike value value' →
      Stmt.Alike (.assign node name value) (.assign node' name value')
  | print {node node' value value'} : Expr.Alike value value' →
      Stmt.Alike (.print node value) (.print node' value')
  | ifOnly {node node' test test' consequence consequence'} : Expr.Alike test test' →
      Block.Alike consequence consequence' →
      Stmt.Alike (.ifElse node test consequence none) (.ifElse node' test' consequence' none)
  | ifElse {node node' test test' consequence consequence' alternative alternative'} :
      Expr.Alike test test' → Block.Alike consequence consequence' →
      Block.Alike alternative alternative' →
      Stmt.Alike (.ifElse node test consequence (some alternative))
        (.ifElse node' test' consequence' (some alternative'))
  | whileLoop {node node' test test' body body'} : Expr.Alike test test' →
      Block.Alike body body' →
      Stmt.Alike (.whileLoop node test body) (.whileLoop node' test' body')
  | breakLoop {node node'} : Stmt.Alike (.breakLoop node) (.breakLoop node')
  | continueLoop {node node'} : Stmt.Alike (.continueLoop node) (.continueLoop node')
  | expr {node node' value value'} : Expr.Alike value value' →
      Stmt.Alike (.expr node value) (.expr node' value')

inductive AlikeAll : List Stmt → List Stmt → Prop
  | nil : AlikeAll [] []
  | cons {s s' rest rest'} : Stmt.Alike s s' → AlikeAll rest rest' →
      AlikeAll (s :: rest) (s' :: rest')

end

theorem Expr.Alike.id {e e' : Expr} (h : e.Alike e') : e.id = e'.id := by
  cases h with
  | literal hid | unary hid _ | binary hid _ _ | load hid | compound hid _ => exact hid

/-! ## Constants -/

theorem Double.eq_of_equal {x y : Double} (hx : x.isNegative = false) (hy : y.isNegative = false)
    (h : x.equal y = true) : x = y := by
  have hrank : x.rank = y.rank := eq_of_beq (Bool.and_eq_true_iff.1 h).2
  have hmagnitude : x.magnitude = y.magnitude := by
    rw [rank, rank, hx, hy] at hrank
    exact Int.ofNat_inj.1 hrank
  have hlt : x.bits.toNat < 0x8000000000000000 := by simpa [isNegative] using hx
  have hlt' : y.bits.toNat < 0x8000000000000000 := by simpa [isNegative] using hy
  rw [magnitude, magnitude, Nat.mod_eq_of_lt hlt, Nat.mod_eq_of_lt hlt'] at hmagnitude
  obtain ⟨bits⟩ := x
  obtain ⟨bits'⟩ := y
  exact congrArg Double.mk (UInt64.toNat_inj.1 hmagnitude)

theorem Value.Read.isNegative {x : Double} (h : (Value.float x).Read) : x.isNegative = false := by
  obtain ⟨t, hfound, hv⟩ := h
  unfold Token.literal? at hv
  split at hv
  · obtain ⟨n, -, hn⟩ := Option.map_eq_some_iff.1 hv
    cases hn
  · rename_i hkind
    obtain ⟨y, hy, heq⟩ := Option.map_eq_some_iff.1 hv
    cases heq
    obtain ⟨d, hd⟩ := hfound.float hkind
    rw [Double.read?_pointed hd] at hy
    cases hy
    exact (Double.ofDecimal_nonneg d).1
  · cases hv
  · cases hv
  · cases hv

theorem Value.Read.eq_of_same {v w : Value} (hv : v.Read) (hw : w.Read) (h : v.same w = true) :
    v = w := by
  cases v with
  | int a =>
    cases w with
    | int b => exact congrArg Value.int (eq_of_beq h)
    | float | bool => cases h
  | float x =>
    cases w with
    | float y => exact congrArg Value.float (Double.eq_of_equal hv.isNegative hw.isNegative h)
    | int | bool => cases h
  | bool a =>
    cases w with
    | bool b => exact congrArg Value.bool (eq_of_beq h)
    | int | float => cases h

/-! ## Trees that are the same -/

theorem Written.left {l l' : List Part} (h : Written (l ++ l')) : Written l :=
  (List.forall_mem_append.1 h).1

theorem Written.right {l l' : List Part} (h : Written (l ++ l')) : Written l' :=
  (List.forall_mem_append.1 h).2

theorem numbers_append_append (l l' : List Part) (rest : List Nat) :
    numbers (l ++ l') ++ rest = numbers l ++ (numbers l' ++ rest) := by
  rw [numbers_append, List.append_assoc]

theorem numbers_singleton_append (part : Part) (rest : List Nat) :
    numbers [part] ++ rest = part.node.id :: rest := rfl

mutual

/-- Trees that are the same take as many numbers, so what is numbered after them starts alike. -/
theorem Expr.alike_of_same : (e e' : Expr) → ∀ rest rest', e.same e' = true →
    Written e.parts → Written e'.parts →
    numbers e.parts ++ rest = numbers e'.parts ++ rest' → e.Alike e' ∧ rest = rest'
  | .literal node value, e', rest, rest', hs, hw, hw', hn => by
    cases e' with
    | literal node' value' =>
      rw [Expr.same] at hs
      have hread : value.Read := hw (.expr (.literal node value)) (by simp [Expr.parts])
      have hread' : value'.Read := hw' (.expr (.literal node' value')) (by simp [Expr.parts])
      obtain rfl := hread.eq_of_same hread' hs
      obtain ⟨hid, hrest⟩ := List.cons.inj hn
      exact ⟨.literal hid, hrest⟩
    | unary | binary | load | compound => simp [Expr.same] at hs
  | .unary node op operand, e', rest, rest', hs, hw, hw', hn => by
    cases e' with
    | unary node' op' operand' =>
      simp only [Expr.same, Bool.and_eq_true, beq_iff_eq] at hs
      simp only [Expr.parts, numbers_append_append, numbers_singleton_append] at hw hw' hn
      obtain ⟨rfl, hs⟩ := hs
      obtain ⟨h, hrest⟩ := operand.alike_of_same operand' _ _ hs hw.left hw'.left hn
      obtain ⟨hid, hrest⟩ := List.cons.inj hrest
      exact ⟨.unary hid h, hrest⟩
    | literal | binary | load | compound => simp [Expr.same] at hs
  | .binary node op left right, e', rest, rest', hs, hw, hw', hn => by
    cases e' with
    | binary node' op' left' right' =>
      simp only [Expr.same, Bool.and_eq_true, beq_iff_eq] at hs
      simp only [Expr.parts, numbers_append_append, numbers_singleton_append] at hw hw' hn
      obtain ⟨⟨rfl, hs⟩, hs'⟩ := hs
      obtain ⟨hl, hrest⟩ := left.alike_of_same left' _ _ hs hw.left.left hw'.left.left hn
      obtain ⟨hr, hrest⟩ := right.alike_of_same right' _ _ hs' hw.left.right hw'.left.right hrest
      obtain ⟨hid, hrest⟩ := List.cons.inj hrest
      exact ⟨.binary hid hl hr, hrest⟩
    | literal | unary | load | compound => simp [Expr.same] at hs
  | .load node name, e', rest, rest', hs, hw, hw', hn => by
    cases e' with
    | load node' name' =>
      simp only [Expr.same, beq_iff_eq] at hs
      subst hs
      obtain ⟨hid, hrest⟩ := List.cons.inj hn
      exact ⟨.load hid, hrest⟩
    | literal | unary | binary | compound => simp [Expr.same] at hs
  | .compound node body, e', rest, rest', hs, hw, hw', hn => by
    cases e' with
    | compound node' body' =>
      rw [Expr.same] at hs
      simp only [Expr.parts, numbers_append_append, numbers_singleton_append] at hw hw' hn
      obtain ⟨h, hrest⟩ := body.alike_of_same body' _ _ hs hw.left hw'.left hn
      obtain ⟨hid, hrest⟩ := List.cons.inj hrest
      exact ⟨.compound hid h, hrest⟩
    | literal | unary | binary | load => simp [Expr.same] at hs

theorem Block.alike_of_same : (b b' : Block) → ∀ rest rest', b.same b' = true →
    Written b.parts → Written b'.parts →
    numbers b.parts ++ rest = numbers b'.parts ++ rest' → b.Alike b' ∧ rest = rest'
  | ⟨_, list⟩, ⟨_, list'⟩, rest, rest', hs, hw, hw', hn => by
    rw [Block.same] at hs
    rw [Block.parts] at hw hw'
    rw [Block.parts, Block.parts] at hn
    obtain ⟨h, hrest⟩ := alikeAll_of_same list list' _ _ hs hw hw' hn
    exact ⟨.intro h, hrest⟩

theorem Stmt.alike_of_same : (t t' : Stmt) → ∀ rest rest', t.same t' = true →
    Written t.parts → Written t'.parts →
    numbers t.parts ++ rest = numbers t'.parts ++ rest' → t.Alike t' ∧ rest = rest'
  | .declareVar node name declared none, t', rest, rest', hs, hw, hw', hn => by
    cases t' with
    | declareVar node' name' declared' init' =>
      cases init' with
      | some => simp [Stmt.same] at hs
      | none =>
        simp only [Stmt.same, Bool.and_eq_true, beq_iff_eq] at hs
        obtain ⟨rfl, rfl⟩ := hs
        obtain ⟨hid, hrest⟩ := List.cons.inj hn
        exact ⟨.declareZero hid, hrest⟩
    | _ => simp [Stmt.same] at hs
  | .declareVar node name declared (some init), t', rest, rest', hs, hw, hw', hn => by
    cases t' with
    | declareVar node' name' declared' init' =>
      cases init' with
      | none => simp [Stmt.same] at hs
      | some init' =>
        simp only [Stmt.same, Bool.and_eq_true, beq_iff_eq] at hs
        simp only [Stmt.parts, numbers_append_append, numbers_singleton_append] at hw hw' hn
        obtain ⟨⟨rfl, rfl⟩, hs⟩ := hs
        obtain ⟨h, hrest⟩ := init.alike_of_same init' _ _ hs hw.left hw'.left hn
        obtain ⟨hid, hrest⟩ := List.cons.inj hrest
        exact ⟨.declareVar hid h, hrest⟩
    | _ => simp [Stmt.same] at hs
  | .declareConst node name declared init, t', rest, rest', hs, hw, hw', hn => by
    cases t' with
    | declareConst node' name' declared' init' =>
      simp only [Stmt.same, Bool.and_eq_true, beq_iff_eq] at hs
      simp only [Stmt.parts, numbers_append_append, numbers_singleton_append] at hw hw' hn
      obtain ⟨⟨rfl, rfl⟩, hs⟩ := hs
      obtain ⟨h, hrest⟩ := init.alike_of_same init' _ _ hs hw.left hw'.left hn
      obtain ⟨hid, hrest⟩ := List.cons.inj hrest
      exact ⟨.declareConst hid h, hrest⟩
    | _ => simp [Stmt.same] at hs
  | .assign node name value, t', rest, rest', hs, hw, hw', hn => by
    cases t' with
    | assign node' name' value' =>
      simp only [Stmt.same, Bool.and_eq_true, beq_iff_eq] at hs
      simp only [Stmt.parts, numbers_append_append, numbers_singleton_append] at hw hw' hn
      obtain ⟨rfl, hs⟩ := hs
      obtain ⟨h, hrest⟩ := value.alike_of_same value' _ _ hs hw.left hw'.left hn
      exact ⟨.assign h, (List.cons.inj hrest).2⟩
    | _ => simp [Stmt.same] at hs
  | .print node value, t', rest, rest', hs, hw, hw', hn => by
    cases t' with
    | print node' value' =>
      rw [Stmt.same] at hs
      simp only [Stmt.parts, numbers_append_append, numbers_singleton_append] at hw hw' hn
      obtain ⟨h, hrest⟩ := value.alike_of_same value' _ _ hs hw.left hw'.left hn
      exact ⟨.print h, (List.cons.inj hrest).2⟩
    | _ => simp [Stmt.same] at hs
  | .ifElse node test consequence none, t', rest, rest', hs, hw, hw', hn => by
    cases t' with
    | ifElse node' test' consequence' alternative' =>
      cases alternative' with
      | some => simp [Stmt.same] at hs
      | none =>
        simp only [Stmt.same, Bool.and_eq_true] at hs
        simp only [Stmt.parts, numbers_append_append, numbers_singleton_append] at hw hw' hn
        obtain ⟨h, hrest⟩ := test.alike_of_same test' _ _ hs.1 hw.left.left hw'.left.left hn
        obtain ⟨hb, hrest⟩ := consequence.alike_of_same consequence' _ _ hs.2 hw.left.right
          hw'.left.right hrest
        exact ⟨.ifOnly h hb, (List.cons.inj hrest).2⟩
    | _ => simp [Stmt.same] at hs
  | .ifElse node test consequence (some alternative), t', rest, rest', hs, hw, hw', hn => by
    cases t' with
    | ifElse node' test' consequence' alternative' =>
      cases alternative' with
      | none => simp [Stmt.same] at hs
      | some alternative' =>
        simp only [Stmt.same, Bool.and_eq_true] at hs
        simp only [Stmt.parts, numbers_append_append, numbers_singleton_append] at hw hw' hn
        obtain ⟨⟨hst, hsc⟩, hsa⟩ := hs
        obtain ⟨h, hrest⟩ := test.alike_of_same test' _ _ hst hw.left.left.left
          hw'.left.left.left hn
        obtain ⟨hb, hrest⟩ := consequence.alike_of_same consequence' _ _ hsc hw.left.left.right
          hw'.left.left.right hrest
        obtain ⟨hb', hrest⟩ := alternative.alike_of_same alternative' _ _ hsa hw.left.right
          hw'.left.right hrest
        exact ⟨.ifElse h hb hb', (List.cons.inj hrest).2⟩
    | _ => simp [Stmt.same] at hs
  | .whileLoop node test body, t', rest, rest', hs, hw, hw', hn => by
    cases t' with
    | whileLoop node' test' body' =>
      simp only [Stmt.same, Bool.and_eq_true] at hs
      simp only [Stmt.parts, numbers_append_append, numbers_singleton_append] at hw hw' hn
      obtain ⟨h, hrest⟩ := test.alike_of_same test' _ _ hs.1 hw.left.left hw'.left.left hn
      obtain ⟨hb, hrest⟩ := body.alike_of_same body' _ _ hs.2 hw.left.right hw'.left.right hrest
      exact ⟨.whileLoop h hb, (List.cons.inj hrest).2⟩
    | _ => simp [Stmt.same] at hs
  | .breakLoop node, t', rest, rest', hs, hw, hw', hn => by
    cases t' with
    | breakLoop node' => exact ⟨.breakLoop, (List.cons.inj hn).2⟩
    | _ => simp [Stmt.same] at hs
  | .continueLoop node, t', rest, rest', hs, hw, hw', hn => by
    cases t' with
    | continueLoop node' => exact ⟨.continueLoop, (List.cons.inj hn).2⟩
    | _ => simp [Stmt.same] at hs
  | .expr node value, t', rest, rest', hs, hw, hw', hn => by
    cases t' with
    | expr node' value' =>
      rw [Stmt.same] at hs
      simp only [Stmt.parts, numbers_append_append, numbers_singleton_append] at hw hw' hn
      obtain ⟨h, hrest⟩ := value.alike_of_same value' _ _ hs hw.left hw'.left hn
      exact ⟨.expr h, (List.cons.inj hrest).2⟩
    | _ => simp [Stmt.same] at hs

theorem alikeAll_of_same : (list list' : List Stmt) → ∀ rest rest', sameAll list list' = true →
    Written (partsAll list) → Written (partsAll list') →
    numbers (partsAll list) ++ rest = numbers (partsAll list') ++ rest' →
    AlikeAll list list' ∧ rest = rest'
  | [], list', rest, rest', hs, hw, hw', hn => by
    cases list' with
    | nil => exact ⟨.nil, hn⟩
    | cons => simp [sameAll] at hs
  | t :: list, list', rest, rest', hs, hw, hw', hn => by
    cases list' with
    | nil => simp [sameAll] at hs
    | cons t' list' =>
      simp only [sameAll, Bool.and_eq_true] at hs
      simp only [partsAll, numbers_append_append] at hw hw' hn
      obtain ⟨h, hrest⟩ := t.alike_of_same t' _ _ hs.1 hw.left hw'.left hn
      obtain ⟨hl, hrest⟩ := alikeAll_of_same list list' _ _ hs.2 hw.right hw'.right hrest
      exact ⟨.cons h hl, hrest⟩

end

namespace Program

variable {source source' file file' : String} {p q : Program}

theorem written_ofSource (h : ofSource source file = .ok p) : Written p.parts := by
  obtain ⟨tokens, htokens, hp⟩ := bind_eq_ok.1 h
  obtain ⟨d, hreads, -⟩ := ofTokens_eq_ok.1 hp
  have hsourced : (Cursor.ofTokens tokens file).Sourced :=
    fun t ht => Token.found_of_scan htokens t (Cursor.mem_of_mem_pending ht)
  exact hreads.written hsourced written_nil

theorem numbers_ofSource (h : ofSource source file = .ok p) :
    numbers p.parts = List.range p.parts.length := by
  obtain ⟨tokens, -, hp⟩ := bind_eq_ok.1 h
  exact numbers_ofTokens hp

theorem exists_range_append (m n : Nat) :
    ∃ rest rest', List.range m ++ rest = List.range n ++ rest' := by
  refine ⟨(List.range n).map (m + ·), (List.range m).map (n + ·), ?_⟩
  rw [← List.range_add, ← List.range_add, Nat.add_comm]

theorem alike_of_same (hp : ofSource source file = .ok p) (hq : ofSource source' file' = .ok q)
    (hsame : p.same q = true) : AlikeAll p.statements q.statements := by
  obtain ⟨rest, rest', hrest⟩ := exists_range_append p.parts.length q.parts.length
  rw [← numbers_ofSource hp, ← numbers_ofSource hq] at hrest
  exact (alikeAll_of_same _ _ _ _ hsame (written_ofSource hp) (written_ofSource hq) hrest).1

end Program

end Leveret
