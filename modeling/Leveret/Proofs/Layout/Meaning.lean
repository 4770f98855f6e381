import Leveret.Proofs.Code.Agreement
import Leveret.Proofs.Layout.Backends
import Leveret.Proofs.Layout.Checking

/-!
# Layout has no meaning

Texts that are read as the same program are checked with the same result, run in the same way and
lowered to the same module, however they are laid out.
-/

namespace Leveret

theorem checkSource_of_clean {source file : String} {p : Program}
    (hp : Program.ofSource source file = .ok p) (hclean : p.check.errors = []) :
    checkSource source file = .ok ⟨p, p.check.annotations⟩ := by
  unfold checkSource
  rw [hp]
  have haccept : p.check.isClean = true := by
    rw [CheckResult.isClean, hclean]
    rfl
  exact if_pos haccept

/-- Two texts of the same program have faults with the same causes, the same annotations, the same
printed lines with the same cause of failure behind them, and if there are no faults, the same
code. -/
theorem Program.layout_meaningless {source source' file file' : String} {p q : Program}
    (hp : Program.ofSource source file = .ok p) (hq : Program.ofSource source' file' = .ok q)
    (hsame : p.same q = true) :
    p.check.errors.map (·.cause) = q.check.errors.map (·.cause) ∧
      p.check.annotations = q.check.annotations ∧
      (∀ limit, (p.run limit).output = (q.run limit).output ∧
        (p.run limit).halt.map Halt.cause? = (q.run limit).halt.map Halt.cause?) ∧
      (p.check.errors = [] → ∀ name, ∃ m,
        CheckedProgram.lower ⟨p, p.check.annotations⟩ name = .ok m ∧
        CheckedProgram.lower ⟨q, q.check.annotations⟩ name = .ok m) := by
  have halike := Program.alike_of_same hp hq hsame
  obtain ⟨hannotations, hcauses⟩ := Program.check_of_alike halike
  refine ⟨hcauses, hannotations, Program.run_of_alike halike, fun hclean name => ?_⟩
  have hwell := checkSource_wellTyped (checkSource_of_clean hp hclean)
  obtain ⟨m, -, hm, -, -⟩ := Code.program_code hwell name
  exact ⟨m, hm, CheckedProgram.lower_of_alike halike hannotations hm⟩

def narrow : String := "print(1);if(1>2){}else if(true){print 7/0;}"

def wide : String := "print 1; // one\nif 1 > 2 { } else { if true { print 7 /* by */ / 0; } }"

theorem exists_layout_meaningless :
    ∃ p q m, Program.ofSource narrow "narrow" = .ok p ∧ Program.ofSource wide "wide" = .ok q ∧
      p.same q = true ∧ p.span ≠ q.span ∧ p.check.errors = [] ∧ q.check.errors = [] ∧
      p.check.annotations = q.check.annotations ∧
      (p.run 1).output = ["1"] ∧ (q.run 1).output = ["1"] ∧
      (q.run 1).halt.map Halt.cause? = some (some .divisionByZero) ∧
      CheckedProgram.lower ⟨p, p.check.annotations⟩ "module" = .ok m ∧
      CheckedProgram.lower ⟨q, q.check.annotations⟩ "module" = .ok m := by
  have hfacts : (Program.ofSource narrow "narrow").toOption.bind (fun p =>
      (Program.ofSource wide "wide").toOption.map fun q =>
        (p.same q, decide (p.span = q.span), p.check.errors, p.run 1)) =
      some (true, false, [], ⟨["1"], some (.failed ⟨.divisionByZero, ⟨38, "narrow"⟩⟩)⟩) := by
    decide +kernel
  obtain ⟨p, hp, hfacts⟩ := Option.bind_eq_some_iff.1 hfacts
  obtain ⟨q, hq, hfacts⟩ := Option.map_eq_some_iff.1 hfacts
  simp only [Prod.mk.injEq, decide_eq_false_iff_not] at hfacts
  obtain ⟨hsame, hspan, hclean, hrun⟩ := hfacts
  have hp := toOption_eq_some.1 hp
  have hq := toOption_eq_some.1 hq
  obtain ⟨hcauses, htypes, hruns, hcode⟩ := Program.layout_meaningless hp hq hsame
  obtain ⟨m, hm, hm'⟩ := hcode hclean "module"
  have hclean' : q.check.errors = [] := by simpa [hclean] using hcauses
  obtain ⟨houtput, hhalt⟩ := hruns 1
  rw [hrun] at houtput hhalt
  exact ⟨p, q, m, hp, hq, hsame, hspan, hclean, hclean', htypes, by rw [hrun], houtput.symm,
    hhalt.symm, hm, hm'⟩

end Leveret
