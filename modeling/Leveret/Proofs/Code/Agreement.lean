import Leveret.Proofs.Code.Trees
import Leveret.Proofs.Typing.Soundness

/-!
# The two backends agree

Running a program that was accepted and running the code it is lowered to come to the same: the
same lines and a return, the same lines and a division by zero, or no end on both sides.
-/

namespace Leveret

namespace Eval

theorem program_run {P : Nat → Ty → Prop} {Γ Γ' : Chain Declaration} {last r : Option Ty}
    {list : List Stmt} {limit : Nat} {σ : State} (h : Sequence P false Γ last list Γ' r)
    (hσ : Matches Γ σ) (v : Option Value) :
    (program limit list).run σ = match (stmts limit v list).run σ with
      | .ok _ σ' => .ok () σ'
      | .error halt σ' => .error halt σ' := by
  induction list generalizing Γ last σ v with
  | nil => rfl
  | cons s rest ih =>
    cases h with
    | cons hs hrest =>
      have hsafe := stmt_safe hs limit σ hσ
      rw [program, stmts]
      cases hrun : (stmt limit s).run σ with
      | error halt σ' => rw [run_bind_of_error hrun, run_bind_of_error hrun]
      | ok c σ' =>
        rw [run_bind_of_ok hrun, run_bind_of_ok hrun]
        have hc := hsafe.of_run hrun
        cases c with
        | value v => exact ih hrest hc.2 v
        | breaking | continuing => cases hc.1

end Eval

namespace Code

open Lowering (State)

theorem fits_initial : Fits .initial State.initial :=
  ⟨⟨_, rfl, rfl⟩, .initial, List.nodup_nil⟩

theorem starts_initial : Starts .initial State.initial .initial .initial :=
  ⟨.initial, ⟨.initial, rfl⟩, ⟨_, rfl, rfl, rfl⟩⟩

/-- The machine keeps up with every run of the program, divides what the run divides, and returns
zero where it ends. -/
def KeepsUpWith (f : Function) (p : Program) : Prop :=
  ∀ limit, Simulates f (p.Divides limit) limit .initial
    ((Eval.program limit p.statements).run .initial) fun _ σ m =>
      m.step f = .error (.returned (.int 0)) ∧ m.output = σ.output

theorem program_code {p : CheckedProgram} (hp : p.WellTyped) (name : String) :
    ∃ m f, p.lower name = .ok m ∧ m.function? entryName = some f ∧ KeepsUpWith f p.program := by
  obtain ⟨Γ', r, ht⟩ := hp
  obtain ⟨r', s, hrun, hlow, hk⟩ := stmts_code p.program ht State.initial none fits_initial
    (fun h => by cases h) rfl (fun _ h => by cases h)
  let b := s.builder.terminate (.ret (.constant (.int 0)))
  have hlower : p.lower name = .ok ⟨name, printers, [b.function entryName .int]⟩ := by
    have hprogram : (Lowering.program p.annotations p.program.statements).run .initial =
        .ok () { s with builder := b } := by
      rw [Lowering.program, run_bind_of_ok hrun]
      rfl
    rw [CheckedProgram.lower, hprogram]
  refine ⟨_, b.function entryName .int, hlower, rfl, fun limit => ?_⟩
  have hready := hlow.grown.ready
  have hmatches : Eval.Matches .initial .initial := Chain.Match.initial
  have hsim := (hk (b.function entryName .int) limit .initial .initial none
    (Builder.terminate_extends hready) starts_initial trivial (.inr ⟨_, .start⟩)).and_safe
    (Eval.stmts_safe ht none rfl limit .initial hmatches)
  rw [Eval.program_run ht hmatches none]
  cases hrun : (Eval.stmts limit none p.program.statements).run .initial with
  | error halt σ =>
    rw [hrun] at hsim
    cases halt with
    | unfinished => exact hsim
    | failed d => exact hsim
  | ok c σ =>
    rw [hrun] at hsim
    obtain ⟨k, m', hm', hended, hends⟩ := hsim
    cases c with
    | value v =>
      have hstep : m'.step (b.function entryName .int) = _ :=
        step_of_leaves hended.place (Builder.terminate_leaves hready)
      exact ⟨k, m', hm', hstep, hended.state.output⟩
    | breaking | continuing => cases hends.1

/-! ## Ends and endless runs -/

section Runs

variable {p : Program} {f : Function} {limit : Nat}

theorem KeepsUpWith.returned (h : KeepsUpWith f p) (hend : (p.run limit).halt = none) :
    ∃ k m, Machine.run f k .initial = (m, some (.returned (.int 0))) ∧
      m.output.toList = (p.run limit).output := by
  have hsim := h limit
  rw [Program.run] at hend ⊢
  cases hrun : (Eval.program limit p.statements).run .initial with
  | error halt σ =>
    rw [hrun] at hend
    cases hend
  | ok _ σ =>
    rw [hrun] at hsim
    obtain ⟨k, m, hk, hstep, ho⟩ := hsim
    refine ⟨k + 1, m, ?_, congrArg Array.toList ho⟩
    rw [Machine.run_add hk.run, Machine.run_one_of_error hstep]

theorem KeepsUpWith.failed {d : Diagnostic} (h : KeepsUpWith f p)
    (hend : (p.run limit).halt = some (.failed d)) :
    ∃ k m, Machine.run f k .initial = (m, some .divisionByZero) ∧
      m.output.toList = (p.run limit).output := by
  have hsim := h limit
  rw [Program.run] at hend ⊢
  cases hrun : (Eval.program limit p.statements).run .initial with
  | ok _ σ =>
    rw [hrun] at hend
    cases hend
  | error halt σ =>
    rw [hrun] at hend hsim
    cases hend
    obtain ⟨k, m, hk, ho⟩ := hsim
    exact ⟨k, m, hk, congrArg Array.toList ho⟩

theorem KeepsUpWith.unfinished (h : KeepsUpWith f p)
    (hend : (p.run limit).halt = some .unfinished) :
    ∃ k m, limit ≤ k ∧ Machine.run f k .initial = (m, none) ∧
      m.output.toList = (p.run limit).output := by
  have hsim := h limit
  rw [Program.run] at hend ⊢
  cases hrun : (Eval.program limit p.statements).run .initial with
  | ok _ σ =>
    rw [hrun] at hend
    cases hend
  | error halt σ =>
    rw [hrun] at hend hsim
    cases hend
    obtain ⟨k, m, hle, hk, ho⟩ := hsim
    exact ⟨k, m, hle, hk, congrArg Array.toList ho⟩

/-- A program without an end has code without an end, and the two print the same. -/
theorem KeepsUpWith.endless (h : KeepsUpWith f p)
    (hend : ∀ limit, (p.run limit).halt = some .unfinished) :
    (∀ k, (Machine.run f k .initial).2 = none) ∧
      ∀ lines, (∃ limit, lines <+: (p.run limit).output) ↔
        ∃ k, lines <+: (Machine.run f k .initial).1.output.toList := by
  refine ⟨fun k => ?_, fun lines => ⟨?_, ?_⟩⟩
  · obtain ⟨n, m, hle, hn, -⟩ := h.unfinished (hend k)
    exact (Machine.run_of_le hn hle).1
  · rintro ⟨limit, hlines⟩
    obtain ⟨n, m, -, hn, ho⟩ := h.unfinished (hend limit)
    exact ⟨n, by rwa [hn, ho]⟩
  · -- a run with as many passes as the machine has made steps has printed as much
    rintro ⟨k, hlines⟩
    obtain ⟨n, m, hle, hn, ho⟩ := h.unfinished (hend k)
    refine ⟨k, ho ▸ hlines.trans (Machine.run_of_le hn hle).2⟩

end Runs

end Code

open Code

/-- For a program that was accepted, a run and its code come to the same: the same end, the same
division by zero, or no end. -/
theorem checkSource_backends_agree {source file : String} {p : CheckedProgram}
    (h : checkSource source file = .ok p) (name : String) :
    ∃ m f, p.lower name = .ok m ∧ m.function? entryName = some f ∧
      (∀ limit, (p.program.run limit).halt = none →
        ∃ k m', Machine.run f k .initial = (m', some (.returned (.int 0))) ∧
          m'.output.toList = (p.program.run limit).output) ∧
      (∀ limit position,
        (p.program.run limit).halt = some (.failed ⟨.divisionByZero, position⟩) →
        ∃ k m', Machine.run f k .initial = (m', some .divisionByZero) ∧
          m'.output.toList = (p.program.run limit).output) ∧
      ((∀ limit, (p.program.run limit).halt = some .unfinished) →
        (∀ k, (Machine.run f k .initial).2 = none) ∧
        ∀ lines, (∃ limit, lines <+: (p.program.run limit).output) ↔
          ∃ k, lines <+: (Machine.run f k .initial).1.output.toList) := by
  obtain ⟨m, f, hm, hf, hkeeps⟩ := program_code (checkSource_wellTyped h) name
  exact ⟨m, f, hm, hf, fun _ hend => hkeeps.returned hend, fun _ _ hend => hkeeps.failed hend,
    hkeeps.endless⟩

theorem exists_checkSource_backends_agree :
    ∃ p m f k m', checkSource "var i = 0; while i < 2 { print i; i = i + 1; } print { i / 2; };"
        "count" = .ok p ∧ p.lower "count" = .ok m ∧ m.function? entryName = some f ∧
      Machine.run f k .initial = (m', some (.returned (.int 0))) ∧
      m'.output.toList = ["0", "1", "1"] := by
  have hrun : (checkSource "var i = 0; while i < 2 { print i; i = i + 1; } print { i / 2; };"
      "count").toOption.map (fun p => p.program.run 5) = some ⟨["0", "1", "1"], none⟩ := by
    decide +kernel
  obtain ⟨p, hp, hrun⟩ := Option.map_eq_some_iff.1 hrun
  have hp := toOption_eq_some.1 hp
  obtain ⟨m, f, hm, hf, hreturned, -⟩ := checkSource_backends_agree hp "count"
  obtain ⟨k, m', hk, ho⟩ := hreturned 5 (by rw [hrun])
  exact ⟨p, m, f, k, m', hp, hm, hf, hk, by rw [ho, hrun]⟩

end Leveret
