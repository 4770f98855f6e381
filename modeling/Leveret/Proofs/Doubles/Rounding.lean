import Mathlib.Algebra.Group.Nat.Defs
import Leveret.Double.Nearest

/-!
# Rounding to a double

The nearest double depends on the number only and not on how it is written as a fraction or with
an exponent of ten, and the nearest double to a double is itself.
-/

namespace Leveret

theorem roundHalfEven_mul_right (n d : Nat) {k : Nat} (hk : 0 < k) :
    roundHalfEven (n * k) (d * k) = roundHalfEven n d := by
  have hlt : 2 * (n % d * k) < d * k ↔ 2 * (n % d) < d := by
    rw [← Nat.mul_assoc, Nat.mul_lt_mul_right hk]
  have heq : 2 * (n % d * k) = d * k ↔ 2 * (n % d) = d := by
    rw [← Nat.mul_assoc, Nat.mul_left_inj (Nat.ne_of_gt hk)]
  unfold roundHalfEven
  simp only [Nat.mul_div_mul_right n d hk, Nat.mul_mod_mul_right, hlt, heq]

theorem roundHalfEven_exact (n : Nat) {d : Nat} (hd : 0 < d) : roundHalfEven (n * d) d = n := by
  unfold roundHalfEven
  simp [Nat.mul_div_cancel n hd, Nat.mul_mod_left, hd]

namespace Double

theorem unit_pos : 0 < unit := by
  unfold unit
  apply Nat.pow_pos
  decide

/-! ## Fractions -/

theorem nearestMagnitude_mul_right (n d : Nat) {k : Nat} (hk : 0 < k) :
    nearestMagnitude (n * k) (d * k) = nearestMagnitude n d := by
  have hquotient : n * k * unit / (d * k) = n * unit / d := by
    rw [Nat.mul_right_comm, Nat.mul_div_mul_right _ _ hk]
  unfold nearestMagnitude
  simp only [hquotient]
  rw [Nat.mul_right_comm n, Nat.mul_right_comm d, roundHalfEven_mul_right _ _ hk]

theorem nearestMagnitude_tiny {n d : Nat} (h : 2 * (n * unit) < d) : nearestMagnitude n d = 0 := by
  have hquotient : n * unit / d = 0 := Nat.div_eq_of_lt (by omega)
  have hmod : n * unit % d = n * unit := Nat.mod_eq_of_lt (by omega)
  have hround : roundHalfEven (n * unit) d = 0 := by
    unfold roundHalfEven
    simp [hquotient, hmod, h]
  unfold nearestMagnitude
  simp [hquotient, hround]

theorem le_log2_of_pow_le {k n : Nat} (h : 2 ^ k ≤ n) : k ≤ n.log2 := by
  have hpos := Nat.lt_of_lt_of_le (Nat.two_pow_pos k) h
  exact (Nat.le_log2 (Nat.ne_of_gt hpos)).2 h

theorem nearestMagnitude_huge {n : Nat} (h : 2 ^ 1029 ≤ n) :
    nearestMagnitude n 1 = infinityMagnitude := by
  have hsize : 2 ^ 2103 ≤ n * unit :=
    calc 2 ^ 2103 ≤ 2 ^ 1029 * unit := by decide +kernel
      _ ≤ n * unit := Nat.mul_le_mul_right _ h
  have hlog : 2103 ≤ (n * unit / 1).log2 := by
    rw [Nat.div_one]
    exact le_log2_of_pow_le hsize
  unfold nearestMagnitude infinityMagnitude
  dsimp only
  omega

/-! ## Decimal numbers -/

theorem lt_pow_digitBound (n : Nat) : n < 10 ^ digitBound n := by
  unfold digitBound
  calc n < 2 ^ (n.log2 + 1) := Nat.lt_log2_self
    _ ≤ 2 ^ (3 * (n.log2 / 3 + 1)) := Nat.pow_le_pow_right (by decide) (by omega)
    _ = 8 ^ (n.log2 / 3 + 1) := Nat.pow_mul 2 3 _
    _ ≤ 10 ^ (n.log2 / 3 + 1) := Nat.pow_le_pow_left (by decide) _

theorem lt_pow_of_le {n u t b places : Nat} (hu : 2 * u ≤ 10 ^ t) (hn : n < 10 ^ b)
    (hplaces : t + b ≤ places) : 2 * (n * u) < 10 ^ places := by
  rw [← Nat.mul_assoc, Nat.mul_right_comm]
  calc 2 * u * n
    _ ≤ 10 ^ t * n := Nat.mul_le_mul_right n hu
    _ < 10 ^ t * 10 ^ b := Nat.mul_lt_mul_of_pos_left hn (Nat.pow_pos (by decide))
    _ = 10 ^ (t + b) := (Nat.pow_add 10 t b).symm
    _ ≤ 10 ^ places := Nat.pow_le_pow_right (by decide) hplaces

/-- The bounds that keep the powers of ten small do not change the result. -/
theorem decimalMagnitude_eq (d : Decimal) : decimalMagnitude d =
    nearestMagnitude (d.digits * 10 ^ d.exponent.toNat) (10 ^ (-d.exponent).toNat) := by
  unfold decimalMagnitude
  simp only [Nat.pow_eq]
  split
  · rename_i h
    symm
    rcases h with h | h
    · apply nearestMagnitude_tiny
      rw [h, Nat.zero_mul, Nat.zero_mul]
      exact Nat.pow_pos (by decide)
    · have hexp : d.exponent.toNat = 0 := by omega
      have hden : 324 + digitBound d.digits ≤ (-d.exponent).toNat := by omega
      apply nearestMagnitude_tiny
      rw [hexp, Nat.pow_zero, Nat.mul_one]
      exact lt_pow_of_le (by decide +kernel) (lt_pow_digitBound _) hden
  · rename_i hsmall
    split
    · rename_i hlarge
      have hden : (-d.exponent).toNat = 0 := by omega
      rw [hden, Nat.pow_zero]
      symm
      apply nearestMagnitude_huge
      calc 2 ^ 1029 ≤ 10 ^ 310 := by decide +kernel
        _ ≤ 10 ^ d.exponent.toNat := Nat.pow_le_pow_right (by decide) (by omega)
        _ ≤ d.digits * 10 ^ d.exponent.toNat := Nat.le_mul_of_pos_left _ (by omega)
    · rfl

theorem decimalMagnitude_ten_mul (n : Nat) (exponent : Int) :
    decimalMagnitude ⟨10 * n, exponent⟩ = decimalMagnitude ⟨n, exponent + 1⟩ := by
  rw [decimalMagnitude_eq, decimalMagnitude_eq]
  dsimp only
  by_cases h : 0 ≤ exponent
  · have hnum : (exponent + 1).toNat = exponent.toNat + 1 := by omega
    have hden : (-exponent).toNat = 0 := by omega
    have hden' : (-(exponent + 1)).toNat = 0 := by omega
    rw [hnum, hden, hden', Nat.pow_succ]
    congr 1
    ac_rfl
  · have hnum : exponent.toNat = 0 := by omega
    have hnum' : (exponent + 1).toNat = 0 := by omega
    have hden : (-exponent).toNat = (-(exponent + 1)).toNat + 1 := by omega
    rw [hnum, hnum', hden, Nat.pow_succ, Nat.mul_comm 10 n, Nat.pow_zero, Nat.mul_one,
      Nat.mul_one, nearestMagnitude_mul_right _ _ (by decide)]

theorem decimalMagnitude_mul_pow (n k : Nat) (exponent : Int) :
    decimalMagnitude ⟨n * 10 ^ k, exponent⟩ = decimalMagnitude ⟨n, exponent + k⟩ := by
  induction k generalizing n with
  | zero => simp
  | succ k ih =>
    have hpow : n * 10 ^ (k + 1) = 10 * n * 10 ^ k := by
      rw [Nat.pow_succ]
      ac_rfl
    rw [hpow, ih, decimalMagnitude_ten_mul]
    congr 2
    omega

/-! ## Doubles themselves -/

/-- A number of at most 53 bits, shifted, is a double. -/
theorem nearestMagnitude_binade {m shift : Nat}
    (h : (shift = 0 ∧ m < 2 ^ 52) ∨ (2 ^ 52 ≤ m ∧ m < 2 ^ 53)) :
    nearestMagnitude (m * 2 ^ shift) unit =
      min (shift * 0x10000000000000 + m) infinityMagnitude := by
  have hshift : (m * 2 ^ shift).log2 - 52 = shift := by
    rcases h with ⟨rfl, hm⟩ | ⟨hlow, hhigh⟩
    · rw [Nat.pow_zero, Nat.mul_one]
      rcases Nat.eq_zero_or_pos m with rfl | hpos
      · rfl
      · have := (Nat.log2_lt (Nat.ne_of_gt hpos)).2 hm
        omega
    · have hpos := Nat.two_pow_pos shift
      have hlog : (m * 2 ^ shift).log2 = 52 + shift := by
        rw [Nat.log2_eq_iff (Nat.ne_of_gt (Nat.mul_pos (by omega) hpos)), Nat.add_right_comm,
          Nat.pow_add, Nat.pow_add]
        exact ⟨Nat.mul_le_mul_right _ hlow, Nat.mul_lt_mul_of_pos_right hhigh hpos⟩
      omega
  unfold nearestMagnitude
  simp only [Nat.mul_div_cancel _ unit_pos, hshift, Nat.pow_eq]
  rw [Nat.mul_assoc, Nat.mul_comm (2 ^ shift),
    roundHalfEven_exact m (Nat.mul_pos unit_pos (Nat.two_pow_pos _))]

theorem nearestMagnitude_scaled {x : Double} (hx : x.isFinite = true) :
    nearestMagnitude x.scaled unit = x.magnitude := by
  have hmagnitude : x.magnitude < infinityMagnitude := of_decide_eq_true hx
  have hparts := Nat.div_add_mod x.magnitude 0x10000000000000
  have hfraction := Nat.mod_lt x.magnitude (show 0 < 0x10000000000000 by decide)
  unfold scaled
  dsimp only
  rw [Nat.pow_eq]
  generalize x.magnitude / 0x10000000000000 = exponent at *
  generalize x.magnitude % 0x10000000000000 = fraction at *
  split
  · have h := @nearestMagnitude_binade _ 0 (.inl ⟨rfl, hfraction⟩)
    rw [Nat.pow_zero, Nat.mul_one] at h
    rw [h]
    omega
  · rw [nearestMagnitude_binade (.inr ⟨by omega, by omega⟩)]
    omega

end Double

end Leveret
