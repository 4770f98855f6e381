import Leveret.Proofs.Code.Agreement

/-!
# Divisions of whole numbers

The code of a program divides no whole numbers but those that its run divides, and no divisor is
zero where the run comes to its end. One division is left that is not defined for the instruction
set of the code: that of the least number by minus one, where the run wraps around.
-/

namespace Leveret

namespace Code

/-- The divisions that have no result in the instruction set of the code. -/
def Undefined (a b : Int32) : Prop := b = 0 ∨ a = Int32.minValue ∧ b = -1

section Machines

variable {f : Function} {m m' : Machine} {k n : Nat} {a b : Int32}

theorem Machine.Divides.step (h : m.Divides f a b) : ∃ dest, m.step f =
    if b = 0 then .error .divisionByZero else .ok (m.assign dest (.int (a / b))) := by
  obtain ⟨block, i, hblock, hi, hdiv⟩ := h
  have hstep : m.step f = m.instruction i := by
    rw [Machine.step, hblock]
    simp [hi]
  obtain ⟨dest, ty, x, y, rfl⟩ := hdiv.eq_binary
  refine ⟨dest, ?_⟩
  rw [hstep, instruction_binary hdiv.1 hdiv.2, Opcode.apply]
  split <;> rfl

theorem Machine.Divides.ne_zero (h : m.Divides f a b) {v : Value}
    (hend : (m.run f n).2 = some (.returned v)) : b ≠ 0 := by
  rintro rfl
  obtain ⟨dest, hstep⟩ := h.step
  cases n with
  | zero => cases hend
  | succ n =>
    rw [Machine.run, hstep] at hend
    cases hend

theorem Machine.Divides.not_returned (h : m.Divides f a b) (v : Value) :
    m.step f ≠ .error (.returned v) := by
  obtain ⟨dest, hstep⟩ := h.step
  rw [hstep]
  split <;> nofun

theorem Machine.lt_of_run {stop : Stop} (hk : m.run f k = (m', none))
    (hn : (m.run f n).2 = some stop) : k < n := by
  refine Nat.lt_of_not_le fun hle => ?_
  rw [(Machine.run_of_le hk hle).1] at hn
  cases hn

end Machines

/-- Where the run of a program comes to its end, its code has divided only what the run divides,
and never by zero. -/
theorem KeepsUpWith.divides {p : Program} {f : Function} {limit k : Nat} {m : Machine}
    {a b : Int32} (h : KeepsUpWith f p) (hend : (p.run limit).halt = none)
    (hrun : Machine.run f k .initial = (m, none)) (hdiv : m.Divides f a b) :
    b ≠ 0 ∧ p.Divides limit a b := by
  have hsim := h limit
  rw [Program.run] at hend
  cases hprogram : (Eval.program limit p.statements).run .initial with
  | error halt σ =>
    rw [hprogram] at hend
    cases hend
  | ok _ σ =>
    rw [hprogram] at hsim
    obtain ⟨n, m', hpath, hreturn, -⟩ := hsim
    have hstops : (Machine.run f (n + 1) .initial).2 = some (.returned (.int 0)) := by
      rw [Machine.run_add hpath.run, Machine.run_one_of_error hreturn]
    obtain hlt | rfl := Nat.lt_or_eq_of_le (Nat.le_of_lt_succ (Machine.lt_of_run hrun hstops))
    · obtain ⟨rest, rfl⟩ : ∃ rest, n = k + rest := ⟨n - k, by omega⟩
      rw [Nat.add_assoc, Machine.run_add hrun] at hstops
      exact ⟨hdiv.ne_zero hstops, hpath.divides hlt hrun hdiv⟩
    · -- the machine is about to return
      obtain rfl : m' = m := congrArg Prod.fst (hpath.run.symm.trans hrun)
      exact absurd hreturn (hdiv.not_returned _)

end Code

open Code

/-- Where a run of a program that was accepted comes to its end, its code has divided only what the
run divides. Of the undefined divisions that can only be the one of the least number by minus
one. -/
theorem checkSource_divisions {source file : String} {p : CheckedProgram}
    (h : checkSource source file = .ok p) (name : String) :
    ∃ m f, p.lower name = .ok m ∧ m.function? entryName = some f ∧
      ∀ limit, (p.program.run limit).halt = none → ∀ k m' a b,
        Machine.run f k .initial = (m', none) → m'.Divides f a b →
        p.program.Divides limit a b ∧ (Undefined a b → a = Int32.minValue ∧ b = -1) := by
  obtain ⟨m, f, hm, hf, hkeeps⟩ := program_code (checkSource_wellTyped h) name
  refine ⟨m, f, hm, hf, fun limit hend k m' a b hrun hdiv => ?_⟩
  obtain ⟨hzero, hdivides⟩ := hkeeps.divides hend hrun hdiv
  exact ⟨hdivides, fun hundefined => hundefined.resolve_left hzero⟩

theorem exists_checkSource_divisions :
    ∃ p m f m', checkSource "print { print 9; 7 / 2; };" "half" = .ok p ∧
      p.lower "half" = .ok m ∧ m.function? entryName = some f ∧
      (p.program.run 1).halt = none ∧ Machine.run f 1 .initial = (m', none) ∧
      m'.Divides f 7 2 ∧ p.program.Divides 1 7 2 := by
  let code : Array Instruction := #[.call "printInt" [(.int, .constant (.int 9))],
    .binary 0 .sdiv .int (.constant (.int 7)) (.constant (.int 2)),
    .call "printInt" [(.int, .register 0)]]
  let f : Function := ⟨"main", .int, #[], #[⟨"entry", code, some (.ret (.constant (.int 0)))⟩]⟩
  have hcode : (checkSource "print { print 9; 7 / 2; };" "half").toOption.map
      (fun p => ((p.program.run 1).halt, p.lower "half")) =
        some (none, .ok ⟨"half", printers, [f]⟩) := by
    decide +kernel
  obtain ⟨p, hp, hcode⟩ := Option.map_eq_some_iff.1 hcode
  have hp := toOption_eq_some.1 hp
  obtain ⟨hend, hlower⟩ := Prod.mk.inj hcode
  obtain ⟨m, f', hm, hf, hdivides⟩ := checkSource_divisions hp "half"
  obtain rfl : m = ⟨"half", printers, [f]⟩ := Except.ok.inj (hm.symm.trans hlower)
  obtain rfl : f' = f := Option.some.inj (hf.symm.trans rfl)
  have hdiv : Machine.Divides f (Machine.run f 1 .initial).1 7 2 :=
    ⟨_, .binary 0 .sdiv .int (.constant (.int 7)) (.constant (.int 2)), rfl, rfl, rfl, rfl⟩
  exact ⟨p, _, f, _, hp, hlower, rfl, hend, rfl, hdiv, (hdivides 1 hend 1 _ 7 2 rfl hdiv).1⟩

/-- The run of this program comes to its end, and its code divides what is not defined. -/
theorem checkSource_undefined_division :
    ∃ p m f m', checkSource "print (-2147483647 - 1) / -1;" "demo" = .ok p ∧
      p.program.run 1 = ⟨["-2147483648"], none⟩ ∧
      p.lower "demo" = .ok m ∧ m.function? entryName = some f ∧
      Machine.run f 3 .initial = (m', none) ∧ m'.Divides f Int32.minValue (-1) ∧
      Undefined Int32.minValue (-1) := by
  let code : Array Instruction := #[.neg 0 .int (.constant (.int 2147483647)),
    .binary 1 .sub .int (.register 0) (.constant (.int 1)), .neg 2 .int (.constant (.int 1)),
    .binary 3 .sdiv .int (.register 1) (.register 2), .call "printInt" [(.int, .register 3)]]
  let f : Function := ⟨"main", .int, #[], #[⟨"entry", code, some (.ret (.constant (.int 0)))⟩]⟩
  have hcode : (checkSource "print (-2147483647 - 1) / -1;" "demo").toOption.map
      (fun p => (p.program.run 1, p.lower "demo")) =
        some (⟨["-2147483648"], none⟩, .ok ⟨"demo", printers, [f]⟩) := by
    decide +kernel
  obtain ⟨p, hp, hcode⟩ := Option.map_eq_some_iff.1 hcode
  obtain ⟨hrun, hlower⟩ := Prod.mk.inj hcode
  let m' := (Machine.run f 3 .initial).1
  have hsteps : (Machine.run f 3 .initial).2 = none ∧
      m'.value (.register 1) = .ok (.int Int32.minValue) ∧
      m'.value (.register 2) = .ok (.int (-1)) := by
    decide +kernel
  refine ⟨p, _, f, m', toOption_eq_some.1 hp, hrun, hlower, rfl, ?_, ?_, .inr ⟨rfl, rfl⟩⟩
  · rw [← hsteps.1]
  · exact ⟨_, .binary 3 .sdiv .int (.register 1) (.register 2), rfl, rfl, hsteps.2⟩

end Leveret
