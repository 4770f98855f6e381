import Leveret.Proofs.Typing.Account

/-!
# Every fault is justified

The steps of the checker account for what they note and report, and so does the check of a whole
tree. For a program from the parser this says what its table of annotations holds, what it lacks
and why.
-/

namespace Leveret

open Checker

namespace Checker

mutual

theorem expr_accounted : (e : Expr) → ∀ all table s,
    Stretch all table e.parts s ((expr e).run s).2 →
    Accounted all table (e.findings s) s ((expr e).run s).2
  | .literal node value, all, table, s, h => by
    have hexpr : expr (.literal node value) = conclude node (.typed value.ty) := by rw [expr]
    rw [Expr.findings, hexpr, conclude_fst]
    rw [hexpr] at h
    exact conclude_accounted h nofun
  | .unary node op operand, all, table, s, h => by
    rw [Expr.findings, expr_unary, run_bind]
    rw [Expr.parts, expr_unary, run_bind] at h
    have hleft := h.left (unary_keeping (List.mem_singleton.2 rfl) _ _ _)
    have hv := (expr_accounted operand all table s hleft.ofValue).valued
    have hright := h.right (value_keeping operand s) (h.backed.through (value_contained operand))
    exact hv.accounted.append (unary_accounted hright hv.noted hv.missing)
  | .binary node op left right, all, table, s, h => by
    rw [Expr.findings, expr_binary, run_bind, run_bind]
    rw [Expr.parts, expr_binary, run_bind, run_bind] at h
    have hops := h.left (binary_keeping (List.mem_singleton.2 rfl) _ _ _ _)
    have hl := (expr_accounted left all table s (hops.left (value_keeping right _)).ofValue).valued
    have hb := h.backed.through (value_contained left)
    have hright := hops.right (value_keeping left s) hb
    have hr := (expr_accounted right all table _ hright.ofValue).valued
    have hown := h.right ((value_keeping left s).append (value_keeping right _))
      (hb.through (value_contained right))
    refine (hl.accounted.append hr.accounted).append
      (binary_accounted hown hl.noted hr.noted ?_)
    rintro (hnone | hnone)
    · exact hr.accounted.tells.extends.ne_nil (hl.missing hnone)
    · exact hr.missing hnone
  | .load node name, all, table, s, h => by
    have hexpr : expr (.load node name) = load node name := by rw [expr]
    rw [Expr.findings, hexpr]
    rw [hexpr] at h
    exact load_accounted h
  | .compound node body, all, table, s, h => by
    have hexpr : expr (.compound node body) =
        atLoopDepth (fun _ => 0) (block body) >>= conclude node := by rw [expr]
    rw [Expr.findings, hexpr, run_bind, conclude_fst]
    rw [Expr.parts, hexpr, run_bind] at h
    have hbody := h.left (conclude_keeping (List.mem_singleton.2 rfl) _ _)
    obtain ⟨hacc, hp⟩ := block_accounted body all table { s with loopDepth := 0 } { hbody with }
    have hkeep : Keeps (numbers body.parts) s ((atLoopDepth (fun _ => 0) (block body)).run s).2 :=
      atLoopDepth_keeping (block_keeping body) s
    have hown := h.right hkeep (h.backed.through (atLoopDepth_contained (block_contained body)))
    have hbody : Accounted all table (body.findings { s with loopDepth := 0 }) s
        ((atLoopDepth (fun _ => 0) (block body)).run s).2 := ⟨hacc.settled, hacc.tells⟩
    exact hbody.append (conclude_accounted hown hp)

theorem block_accounted : (b : Block) → ∀ all table s,
    Stretch all table b.parts s ((block b).run s).2 →
    Accounted all table (b.findings s) s ((block b).run s).2 ∧
      (((block b).run s).1 = .poisoned → ((block b).run s).2.errors ≠ [])
  | ⟨_, statements⟩, all, table, s, h => by
    rw [block] at h ⊢
    obtain ⟨hacc, -, hp⟩ := stmts_accounted statements .noValue all table
      { s with scopes := s.scopes.push } { h with backed := h.backed.push }
    exact ⟨⟨hacc.settled, hacc.tells⟩, hp nofun⟩

theorem stmt_accounted : (t : Stmt) → ∀ all table s,
    Stretch all table t.parts s ((stmt t).run s).2 →
    Accounted all table (t.findings s) s ((stmt t).run s).2 ∧
      Backed all table ((stmt t).run s).2
  | .declareVar node name declared none, all, table, s, h => by
    rw [Stmt.findings, stmt]
    rw [Stmt.parts, stmt] at h
    refine declare_accounted h .var Option.or_none ?_
    rintro rfl
    exact absurd trivial (h.notBare _ (List.mem_singleton.2 rfl))
  | .declareVar node name declared (some init), all, table, s, h
  | .declareConst node name declared init, all, table, s, h => by
    rw [Stmt.findings, stmt]
    rw [Stmt.parts, stmt] at h
    have hleft := h.left ((initialType_keeping _ _ _ _).trans
      (declare_keeping (List.mem_singleton.2 rfl) _ _ _ _))
    have hv := (expr_accounted init all table s hleft.ofValue).valued
    exact hv.declares (by constructor)
      (h.right (value_keeping init s) (h.backed.through (value_contained init)))
  | .assign node name value, all, table, s, h => by
    have hmem : .stmt (.assign node name value) ∈ all := h.sub (by simp [Stmt.parts])
    refine ⟨?_, h.backed.through (stmt_contained _ rfl)⟩
    rw [stmt] at h
    have hleft := h.left (assign_keeping _ _ _ _ _)
    have hv := (expr_accounted value all table s hleft.ofValue).valued
    have htells := assign_tells hmem (h.backed.through (value_contained value)) hv.noted
    rw [Stmt.findings, stmt]
    exact h.plain ((value_keeping value s).trans (assign_keeping _ _ _ _ _))
      (hv.accounted.then htells) rfl nofun
  | .print node value, all, table, s, h => by
    refine ⟨?_, h.backed.through (stmt_contained _ rfl)⟩
    rw [stmt] at h
    have hv := (expr_accounted value all table s (h.left .refl).ofValue).valued
    rw [Stmt.findings, stmt]
    exact h.plain (value_keeping value s) hv.accounted rfl nofun
  | .ifElse node test consequence none, all, table, s, h => by
    have hmem : .stmt (.ifElse node test consequence none) ∈ all := h.sub (by simp [Stmt.parts])
    refine ⟨?_, h.backed.through (stmt_contained _ rfl)⟩
    rw [stmt] at h
    have hin := h.left .refl
    have hleft := hin.left (block_keeping consequence _)
    have htest := (expr_accounted test all table s hleft.ofTest).valued.tested hmem .ifElse
    have hright := hin.right (test_keeping "if" test s)
      (h.backed.through (test_contained "if" test))
    obtain ⟨hblock, -⟩ := block_accounted consequence all table _ hright
    rw [Stmt.findings, stmt]
    exact h.plain ((test_keeping "if" test s).append (block_keeping consequence _))
      (htest.append hblock) rfl nofun
  | .ifElse node test consequence (some alternative), all, table, s, h => by
    have hmem : .stmt (.ifElse node test consequence (some alternative)) ∈ all :=
      h.sub (by simp [Stmt.parts])
    refine ⟨?_, h.backed.through (stmt_contained _ rfl)⟩
    rw [stmt] at h
    have hin := h.left .refl
    have hfirst := hin.left (block_keeping alternative _)
    have hleft := hfirst.left (block_keeping consequence _)
    have htest := (expr_accounted test all table s hleft.ofTest).valued.tested hmem .ifElse
    have hbtest := h.backed.through (test_contained "if" test)
    have hright := hfirst.right (test_keeping "if" test s) hbtest
    obtain ⟨hblock, -⟩ := block_accounted consequence all table _ hright
    have hk := (test_keeping "if" test s).append (block_keeping consequence _)
    have helse := hin.right hk (hbtest.through (block_contained consequence))
    obtain ⟨hblock', -⟩ := block_accounted alternative all table _ helse
    rw [Stmt.findings, stmt]
    exact h.plain (hk.append (block_keeping alternative _))
      ((htest.append hblock).append hblock') rfl nofun
  | .whileLoop node test body, all, table, s, h => by
    have hmem : .stmt (.whileLoop node test body) ∈ all := h.sub (by simp [Stmt.parts])
    refine ⟨?_, h.backed.through (stmt_contained _ rfl)⟩
    have hdepth := (block_keeping body).inLoop_eq
    rw [stmt, hdepth] at h
    have hin := h.left .refl
    have hloop : Keeping (numbers body.parts) (atLoopDepth (· + 1) (block body)) :=
      atLoopDepth_keeping (block_keeping body)
    have hleft := hin.left (hloop _)
    have htest := (expr_accounted test all table s hleft.ofTest).valued.tested hmem .whileLoop
    have hright := hin.right (test_keeping "while" test s)
      (h.backed.through (test_contained "while" test))
    obtain ⟨hblock, -⟩ := block_accounted body all table
      { ((Checker.test "while" test).run s).2 with
        loopDepth := ((Checker.test "while" test).run s).2.loopDepth + 1 } { hright with }
    rw [Stmt.findings, stmt, hdepth]
    exact h.plain ((test_keeping "while" test s).append (hloop _))
      (htest.append ⟨hblock.settled, hblock.tells⟩) rfl nofun
  | .breakLoop node, all, table, s, h | .continueLoop node, all, table, s, h => by
    refine ⟨?_, h.backed.through (stmt_contained _ rfl)⟩
    rw [stmt] at h
    rw [Stmt.findings, stmt]
    exact h.alone (loopControl_keeping _ _ _) (loopControl_tells _ _) rfl
  | .expr node value, all, table, s, h => by
    refine ⟨?_, h.backed.through (stmt_contained _ rfl)⟩
    rw [stmt] at h
    have ha := expr_accounted value all table s (h.left .refl)
    rw [Stmt.findings, stmt]
    exact h.plain (expr_keeping value s) ha rfl (ha.settled _ (value.mem_findings s)).poisoned

theorem stmts_accounted : (list : List Stmt) → ∀ last all table s,
    Stretch all table (partsAll list) s ((stmts last list).run s).2 →
    Accounted all table (findingsAll list s) s ((stmts last list).run s).2 ∧
      Backed all table ((stmts last list).run s).2 ∧
      ((last = .poisoned → s.errors ≠ []) → ((stmts last list).run s).1 = .poisoned →
        ((stmts last list).run s).2.errors ≠ [])
  | [], last, all, table, s, h => by
    rw [stmts]
    exact ⟨.nil (.silent rfl), h.backed, id⟩
  | t :: rest, last, all, table, s, h => by
    rw [findingsAll, stmts, run_bind]
    rw [partsAll, stmts, run_bind] at h
    have hkeep := stmts_keeping ((stmt t).run s).1 rest ((stmt t).run s).2
    obtain ⟨hacc, hb⟩ := stmt_accounted t all table s (h.left hkeep)
    obtain ⟨hacc', hb', hp'⟩ := stmts_accounted rest _ all table _ (h.right (stmt_keeping t s) hb)
    refine ⟨hacc.append hacc', hb', fun _ => hp' fun hp => ?_⟩
    exact (hacc.settled _ (t.mem_findings s)).poisoned hp

end

end Checker

/-! ## Programs from the parser -/

/-- The faults and the annotations that a check of the program ends with bear each other out. -/
structure CheckResult.Accounts (r : CheckResult) (p : Program) : Prop where
  complete : p.findings.map Prod.fst = p.parts
  justified : ∀ d ∈ r.errors, d.cause.isMismatch = true → d.Justified p.parts r.annotations
  typed : ∀ e a, (.expr e, a) ∈ p.findings →
    ∀ ty, r.annotations[e.id]? = some ty ↔ a = .typed ty
  absent : ∀ e a, (.expr e, a) ∈ p.findings →
    (r.annotations[e.id]? = none ↔ e.Tailless ∨ a = .poisoned)
  undeclared : ∀ t name isConst declared init, .stmt t ∈ p.parts →
    t.Declares name isConst declared init →
    (r.annotations[t.id]? = none ↔
      declared = none ∧ ∃ e, init = some e ∧ r.annotations[e.id]? = none)
  poisoned : ∀ e, (.expr e, .poisoned) ∈ p.findings → r.errors ≠ []
  untyped : ∀ t, .stmt t ∈ p.parts → t.isDeclaration = true → r.annotations[t.id]? = none →
    r.errors ≠ []
  /-- Without faults there is a type for all that can have one. -/
  clean : r.errors = [] → ∀ id, id ∈ r.annotations ↔
    (∃ e, .expr e ∈ p.parts ∧ ¬ e.Tailless ∧ e.id = id) ∨
      ∃ t, .stmt t ∈ p.parts ∧ t.isDeclaration = true ∧ t.id = id

theorem Synthesis.ty?_eq_some {a : Synthesis} {ty : Ty} : a.ty? = some ty ↔ a = .typed ty := by
  cases a <;> simp [Synthesis.ty?]

theorem Synthesis.ty?_eq_none {a : Synthesis} : a.ty? = none ↔ a = .noValue ∨ a = .poisoned := by
  cases a <;> simp [Synthesis.ty?]

section Program

variable {tokens : List Token} {file : String} {p : Program}

theorem Program.map_findings (p : Program) : p.findings.map Prod.fst = p.parts :=
  map_findingsAll p.statements .initial

theorem Program.exists_finding {part : Part} (h : part ∈ p.parts) :
    ∃ a, (part, a) ∈ p.findings := by
  rw [← p.map_findings, List.mem_map] at h
  obtain ⟨⟨_, a⟩, ha, rfl⟩ := h
  exact ⟨a, ha⟩

theorem Program.eq_noValue_iff {e : Expr} {a : Synthesis} (h : (.expr e, a) ∈ p.findings) :
    a = .noValue ↔ e.Tailless := by
  obtain ⟨s, hs⟩ := findingsAll_exists_run p.statements .initial _ h
  have hs : a = ((expr e).run s).1 := hs
  rw [hs, expr_eq_noValue]

theorem Program.accounted (h : Program.ofTokens tokens file = .ok p) :
    Accounted p.parts p.check.annotations p.findings .initial
      ((stmts .noValue p.statements).run .initial).2 := by
  refine (stmts_accounted p.statements .noValue p.parts p.check.annotations .initial ?_).1
  exact {
    sub := fun _ hx => hx
    nodup := Program.numbers_ofTokens h ▸ List.nodup_range
    notBare := Program.not_bare_ofTokens h
    fresh := fun id _ => rfl
    final := fun id _ => rfl
    backed := .initial }

theorem Program.getElem?_expr (h : Program.ofTokens tokens file = .ok p) {e : Expr}
    {a : Synthesis} (ha : (.expr e, a) ∈ p.findings) : p.check.annotations[e.id]? = a.ty? :=
  ((Program.accounted h).settled _ ha).noted

theorem Program.getElem?_stmt (h : Program.ofTokens tokens file = .ok p) {t : Stmt}
    (ht : .stmt t ∈ p.parts) :
    p.check.annotations[t.id]? = t.declaredType? p.check.annotations := by
  obtain ⟨a, ha⟩ := Program.exists_finding ht
  exact ((Program.accounted h).settled _ ha).noted

theorem Program.getElem?_expr_eq_none (h : Program.ofTokens tokens file = .ok p) {e : Expr}
    {a : Synthesis} (ha : (.expr e, a) ∈ p.findings) :
    p.check.annotations[e.id]? = none ↔ e.Tailless ∨ a = .poisoned := by
  rw [Program.getElem?_expr h ha, Synthesis.ty?_eq_none, Program.eq_noValue_iff ha]

/-- A declaration has a type if it states one or if there is one for its initial value. There is
always one or the other. -/
theorem Program.getElem?_stmt_eq_none (h : Program.ofTokens tokens file = .ok p) {t : Stmt}
    {name : String} {isConst : Bool} {declared : Option Ty} {init : Option Expr}
    (ht : .stmt t ∈ p.parts) (hd : t.Declares name isConst declared init) :
    p.check.annotations[t.id]? = none ↔
      declared = none ∧ ∃ e, init = some e ∧ p.check.annotations[e.id]? = none := by
  rw [Program.getElem?_stmt h ht, hd.declaredType?, Option.or_eq_none_iff]
  refine and_congr_right ?_
  rintro rfl
  cases init with
  | some e => simp
  | none =>
    cases hd
    exact absurd trivial (Program.not_bare_ofTokens h _ ht)

theorem Program.untyped_errors (h : Program.ofTokens tokens file = .ok p) {t : Stmt}
    (ht : .stmt t ∈ p.parts) (hd : t.isDeclaration = true)
    (hnone : p.check.annotations[t.id]? = none) : p.check.errors ≠ [] := by
  obtain ⟨a, ha⟩ := Program.exists_finding ht
  have hsettled := (Program.accounted h).settled _ ha
  exact hsettled.untyped hd (hsettled.noted.symm.trans hnone)

theorem Program.of_mem_annotations (h : Program.ofTokens tokens file = .ok p) {id : Nat}
    (hid : id ∈ p.check.annotations) :
    (∃ e, .expr e ∈ p.parts ∧ ¬ e.Tailless ∧ e.id = id) ∨
      ∃ t, .stmt t ∈ p.parts ∧ t.isDeclaration = true ∧ t.id = id := by
  rw [Std.TreeMap.mem_iff_isSome_getElem?, Option.isSome_iff_ne_none] at hid
  have hnumber : id ∈ numbers p.parts := by
    by_contra hout
    exact hid ((stmts_keeping .noValue p.statements .initial).elsewhere id hout)
  obtain ⟨part, hpart, rfl⟩ := List.mem_map.1 hnumber
  cases part with
  | expr e =>
    obtain ⟨a, ha⟩ := Program.exists_finding hpart
    refine .inl ⟨e, hpart, fun htailless => hid ?_, rfl⟩
    exact (Program.getElem?_expr_eq_none h ha).2 (.inl htailless)
  | stmt t =>
    refine .inr ⟨t, hpart, ?_, rfl⟩
    by_contra hd
    refine hid ((Program.getElem?_stmt h hpart).trans ?_)
    cases t <;> first | rfl | exact absurd rfl hd

/-- What checking a program from the parser leaves is accounted for, whether there are faults or
not. -/
theorem Program.check_accounts (h : Program.ofTokens tokens file = .ok p) :
    p.check.Accounts p := by
  have hacc := Program.accounted h
  have hpoisoned {e} (he : (.expr e, .poisoned) ∈ p.findings) : p.check.errors ≠ [] :=
    (hacc.settled _ he).poisoned rfl
  refine ⟨p.map_findings, ?_, ?_, fun e a ha => Program.getElem?_expr_eq_none h ha,
    fun t name isConst declared init ht hd => Program.getElem?_stmt_eq_none h ht hd,
    fun e he => hpoisoned he, fun t ht hd hnone => Program.untyped_errors h ht hd hnone, ?_⟩
  · obtain ⟨new, hnew, hjustified⟩ := hacc.tells
    have hnew : p.check.errors = new := hnew
    rw [hnew]
    exact hjustified
  · intro e a ha ty
    rw [Program.getElem?_expr h ha, Synthesis.ty?_eq_some]
  · intro hclean id
    refine ⟨Program.of_mem_annotations h, ?_⟩
    rw [Std.TreeMap.mem_iff_isSome_getElem?, Option.isSome_iff_ne_none]
    rintro (⟨e, he, htail, rfl⟩ | ⟨t, ht, hd, rfl⟩) hnone
    · obtain ⟨a, ha⟩ := Program.exists_finding he
      rcases (Program.getElem?_expr_eq_none h ha).1 hnone with htailless | rfl
      · exact htail htailless
      · exact hpoisoned ha hclean
    · exact Program.untyped_errors h ht hd hnone hclean

end Program

def tainted : String := "var x = 1 + 2.0; var y = x * 3; var z int = y; z = { -y; }; z = 2.5;"

theorem exists_check_accounts :
    ∃ tokens p, Program.ofTokens tokens "tainted" = .ok p ∧ p.check.Accounts p ∧
      p.check.errors.map (·.cause) =
        [.binOpMismatch "int" "+" "float", .assignTypeMismatch "z" "int" "float"] ∧
      p.findings.map Prod.snd =
        [.typed .int, .typed .float, .poisoned, .noValue, .poisoned, .typed .int, .poisoned,
          .noValue, .poisoned, .noValue, .poisoned, .poisoned, .poisoned, .poisoned, .noValue,
          .typed .float, .noValue] ∧
      p.parts.map (fun part => p.check.annotations[part.node.id]?) =
        [some .int, some .float, none, none, none, some .int, none, none, none, some .int, none,
          none, none, none, none, some .float, none] := by
  have hfacts : (Program.ofSource tainted "tainted").toOption.map (fun p =>
      (p.check.errors.map (·.cause), p.findings.map Prod.snd,
        p.parts.map (fun part => p.check.annotations[part.node.id]?))) =
      some ([.binOpMismatch "int" "+" "float", .assignTypeMismatch "z" "int" "float"],
        [.typed .int, .typed .float, .poisoned, .noValue, .poisoned, .typed .int, .poisoned,
          .noValue, .poisoned, .noValue, .poisoned, .poisoned, .poisoned, .poisoned, .noValue,
          .typed .float, .noValue],
        [some .int, some .float, none, none, none, some .int, none, none, none, some .int, none,
          none, none, none, none, some .float, none]) := by
    decide +kernel
  obtain ⟨p, hp, hfacts⟩ := Option.map_eq_some_iff.1 hfacts
  obtain ⟨tokens, -, htokens⟩ := bind_eq_ok.1 (toOption_eq_some.1 hp)
  simp only [Prod.mk.injEq] at hfacts
  exact ⟨tokens, p, htokens, Program.check_accounts htokens, hfacts⟩

end Leveret
