import Mathlib.Data.List.DropRight
import Mathlib.Data.Rat.Cast.Order
import Mathlib.Tactic.FieldSimp
import Mathlib.Tactic.NormNum
import Mathlib.Tactic.Positivity
import Mathlib.Tactic.Ring
import Leveret.Double.Exact
import Leveret.Proofs.Doubles.Spelling

/-!
# Doubles without a loss

What block code writes for a double is either its value in decimal, to the last place, or its bits.
So no two doubles are written alike.
-/

namespace Leveret

namespace Text

/-! ## Numbers in text -/

def pointedValue (whole fraction : List Char) : ℚ :=
  digitsValue 0 whole + digitsValue 0 fraction / 10 ^ fraction.length

def upperHex : List Char := "0123456789ABCDEF".toList

def hexValue (digits : List Char) : Nat :=
  digits.foldl (fun value c => 16 * value + upperHex.idxOf c) 0

theorem digitsValue_start (start : Nat) (text : List Char) :
    digitsValue start text = 10 ^ text.length * start + digitsValue 0 text :=
  Nat.ofDigitChars_eq_ofDigitChars_zero

theorem pointedValue_eq (whole fraction : List Char) :
    pointedValue whole fraction = digitsValue 0 (whole ++ fraction) / 10 ^ fraction.length := by
  have hten : (10 : ℚ) ^ fraction.length ≠ 0 := by positivity
  rw [pointedValue, digitsValue_append, digitsValue_start (digitsValue 0 whole)]
  push_cast
  rw [add_div, mul_div_cancel_left₀ _ hten]

theorem pointedValue_zeros (whole fraction : List Char) (k : Nat) :
    pointedValue whole (fraction ++ List.replicate k '0') = pointedValue whole fraction := by
  have hten : (10 : ℚ) ^ k ≠ 0 := by positivity
  simp only [pointedValue, digitsValue_append, digitsValue_zeros, List.length_append,
    List.length_replicate, pow_add]
  push_cast
  rw [mul_div_mul_right _ _ hten]

end Text

open Text

namespace Double

/-! ## Hexadecimal digits -/

theorem idxOf_hexDigit : ∀ n < 16, upperHex.idxOf (hexDigit n) = n := by decide

theorem hexDigit_mem : ∀ n < 16, hexDigit n ∈ upperHex := by decide

theorem length_hexDigits (count n : Nat) : (hexDigits count n).length = count := by
  induction count generalizing n with
  | zero => rfl
  | succ count ih => simp [hexDigits, ih]

theorem mem_upperHex_of_mem_hexDigits {count n : Nat} {c : Char} (h : c ∈ hexDigits count n) :
    c ∈ upperHex := by
  induction count generalizing n with
  | zero => cases h
  | succ count ih =>
    rw [hexDigits, List.mem_append, List.mem_singleton] at h
    rcases h with h | rfl
    · exact ih h
    · exact hexDigit_mem _ (Nat.mod_lt _ (by decide))

theorem hexValue_hexDigits (count n : Nat) : hexValue (hexDigits count n) = n % 16 ^ count := by
  induction count generalizing n with
  | zero => simp [hexDigits, hexValue, Nat.mod_one]
  | succ count ih =>
    have hlast : hexValue (hexDigits (count + 1) n) =
        16 * hexValue (hexDigits count (n / 16)) + upperHex.idxOf (hexDigit (n % 16)) := by
      simp [hexDigits, hexValue]
    rw [hlast, ih, idxOf_hexDigit _ (Nat.mod_lt _ (by decide)), Nat.pow_succ, Nat.mul_comm _ 16,
      Nat.mod_mul]
    omega

/-! ## Values -/

def sign (x : Double) : ℚ := if x.isNegative then -1 else 1

theorem abs_sign (x : Double) : |x.sign| = 1 := by
  unfold sign
  split <;> simp

/-- The number that a finite double is, by its sign, exponent and fraction. -/
def value (x : Double) : ℚ :=
  let exponent : Nat := x.magnitude / 2 ^ 52
  let fraction : ℚ := (x.magnitude % 2 ^ 52 : Nat) / 2 ^ 52
  x.sign *
    if exponent = 0 then fraction * 2 ^ (-1022 : ℤ) else (1 + fraction) * 2 ^ ((exponent : ℤ) - 1023)

theorem pow_cast (k : Nat) : (Nat.pow 2 k : ℚ) = 2 ^ k := Nat.cast_pow 2 k

theorem unit_cast : (unit : ℚ) = 2 ^ 1074 := by
  -- the power itself is never computed
  generalize hk : 1074 = k
  unfold unit
  rw [hk, pow_cast]

theorem value_eq (x : Double) : x.value = x.sign * (x.scaled / unit : ℚ) := by
  have hpow : (2 : ℚ) ^ 1074 = 2 ^ 52 * 2 ^ 1022 := pow_add 2 52 1022
  have hbits : 0x10000000000000 = 2 ^ 52 := by norm_num
  unfold value scaled
  rw [unit_cast, hpow, hbits]
  dsimp only
  generalize x.magnitude / 2 ^ 52 = exponent
  generalize x.magnitude % 2 ^ 52 = fraction
  congr 1
  by_cases hzero : exponent = 0
  · rw [if_pos hzero, if_pos hzero, zpow_neg, ← div_eq_mul_inv, div_div]
    norm_cast
  · obtain ⟨k, rfl⟩ := Nat.exists_eq_succ_of_ne_zero hzero
    have hexponent : ((k.succ : ℕ) : ℤ) - 1023 = (k : ℤ) - (1022 : ℕ) := by
      push_cast
      ring
    rw [if_neg hzero, if_neg hzero, hexponent, zpow_sub₀ two_ne_zero, zpow_natCast, zpow_natCast]
    simp only [Nat.succ_sub_one, Nat.pow_eq]
    push_cast
    field_simp
    norm_num

theorem abs_value (x : Double) : |x.value| = (x.scaled / unit : ℚ) := by
  have hnonneg : (0 : ℚ) ≤ x.scaled / unit := by positivity
  rw [value_eq, abs_mul, abs_sign, one_mul, abs_of_nonneg hnonneg]

theorem eq_of_value {x y : Double} (hx : x.isFinite = true) (hy : y.isFinite = true)
    (hsign : x.isNegative = y.isNegative) (hvalue : x.value = y.value) : x = y := by
  have hunit : (unit : ℚ) ≠ 0 := Nat.cast_ne_zero.2 (Nat.ne_of_gt unit_pos)
  have hscaled : x.scaled = y.scaled := by
    have habs := congrArg abs hvalue
    rw [abs_value, abs_value, div_left_inj' hunit] at habs
    exact_mod_cast habs
  have hmagnitude : x.magnitude = y.magnitude := by
    rw [← nearestMagnitude_scaled hx, ← nearestMagnitude_scaled hy, hscaled]
  have hbits : x.bits.toNat = y.bits.toNat := by
    have hxlt := x.bits.toNat_lt
    have hylt := y.bits.toNat_lt
    unfold magnitude at hmagnitude
    unfold isNegative at hsign
    simp only [decide_eq_decide] at hsign
    omega
  obtain ⟨b⟩ := x
  obtain ⟨b'⟩ := y
  exact congrArg Double.mk (UInt64.toNat_inj.1 hbits)

/-! ## Few binary places -/

/-- The double is below a thousand million and has at most ten binary places. -/
def Short (x : Double) : Prop :=
  x.isFinite = true ∧ |x.value| < 1000000000 ∧ ∃ k : ℤ, x.value * 1024 = k

theorem unit_eq : unit = exactUnit * 1024 := by
  have hsplit (k : Nat) (h : 10 ≤ k) : Nat.pow 2 k = Nat.pow 2 (k - 10) * 1024 := by
    obtain ⟨j, rfl⟩ := Nat.exists_eq_add_of_le' h
    rw [Nat.add_sub_cancel]
    exact Nat.pow_add 2 j 10
  unfold unit exactUnit exactPlaces
  generalize hk : 1074 = k
  exact hsplit k (by omega)

theorem exactUnit_pos : 0 < exactUnit := by
  unfold exactUnit
  apply Nat.pow_pos
  decide

theorem value_mul_eq (x : Double) :
    x.value * 1024 = x.sign * (x.scaled / exactUnit : ℚ) := by
  have htwo : (1024 : ℚ) ≠ 0 := by norm_num
  rw [value_eq, unit_eq, Nat.cast_mul, Nat.cast_ofNat, mul_assoc, ← div_div, div_mul_cancel₀ _ htwo]

theorem exists_whole_iff (x : Double) :
    (∃ k : ℤ, x.value * 1024 = k) ↔ x.scaled % exactUnit = 0 := by
  have hunit : (exactUnit : ℚ) ≠ 0 := Nat.cast_ne_zero.2 (Nat.ne_of_gt exactUnit_pos)
  rw [← Nat.dvd_iff_mod_eq_zero]
  constructor
  · rintro ⟨k, hk⟩
    have habs := congrArg abs hk
    have hnonneg : (0 : ℚ) ≤ x.scaled / exactUnit :=
      div_nonneg (Nat.cast_nonneg _) (Nat.cast_nonneg _)
    rw [value_mul_eq, abs_mul, abs_sign, one_mul, abs_of_nonneg hnonneg, div_eq_iff hunit,
      ← Int.cast_abs, Int.abs_eq_natAbs] at habs
    refine ⟨k.natAbs, ?_⟩
    rw [Nat.mul_comm]
    exact_mod_cast habs
  · rintro ⟨m, hm⟩
    refine ⟨(if x.isNegative then -1 else 1) * m, ?_⟩
    rw [value_mul_eq, hm, sign]
    push_cast
    rw [mul_div_cancel_left₀ _ hunit]

theorem hasDecimalSpelling_iff (x : Double) : x.hasDecimalSpelling = true ↔ x.Short := by
  have hpos : (0 : ℚ) < unit := Nat.cast_pos.2 unit_pos
  have hsmall : |x.value| < 1000000000 ↔ x.scaled < 1000000000 * unit := by
    rw [abs_value, div_lt_iff₀ hpos]
    exact_mod_cast Iff.rfl
  unfold hasDecimalSpelling Short
  rw [hsmall, exists_whole_iff]
  simp [and_assoc]

/-! ## Decimal spellings -/

theorem trimZeros_pointed {fraction : List Char} (front : List Char)
    (hf : ∀ c ∈ fraction, c.isDigit = true) :
    ∃ kept, Digits kept ∧ trimZeros (front ++ '.' :: fraction) = front ++ '.' :: kept ∧
      ∀ whole, pointedValue whole kept = pointedValue whole fraction := by
  let zero (c : Char) : Bool := c = '0'
  let kept := fraction.rdropWhile zero
  have hkept : ∀ c ∈ kept, c.isDigit = true :=
    fun c hc => hf c ((List.rdropWhile_prefix zero fraction).subset hc)
  have hdropped : ((front ++ '.' :: fraction).reverse.dropWhile zero).reverse =
      front ++ '.' :: kept := by
    have hstop : (fraction.reverse ++ '.' :: front.reverse).dropWhile zero =
        fraction.reverse.dropWhile zero ++ '.' :: front.reverse := dropWhile_append_stop rfl
    simp [hstop, kept, List.rdropWhile]
  have hzeros : fraction = kept ++ List.replicate (fraction.rtakeWhile zero).length '0' := by
    have hall : ∀ c ∈ fraction.rtakeWhile zero, c = '0' :=
      fun c hc => of_decide_eq_true (List.mem_rtakeWhile_imp (p := zero) hc)
    rw [← List.eq_replicate_of_mem hall, List.rdropWhile_append_rtakeWhile]
  have hvalue (whole : List Char) : pointedValue whole kept = pointedValue whole fraction := by
    conv_rhs => rw [hzeros, pointedValue_zeros]
  unfold trimZeros
  simp only
  rw [hdropped]
  by_cases hnil : kept = []
  · refine ⟨['0'], ⟨by simp, by simp⟩, by simp [hnil], fun whole => ?_⟩
    rw [← hvalue, hnil]
    simp [pointedValue, digitsValue]
  · refine ⟨kept, ⟨hnil, hkept⟩, if_neg ?_, hvalue⟩
    intro hlast
    rw [List.getLast?_append_of_ne_nil _ (by simp), List.getLast?_cons_of_ne_nil hnil] at hlast
    exact absurd (hkept '.' (List.mem_of_getLast? hlast)) (by decide)

/-- The text is the number that the double is, in decimal, with digits on both sides of its point and
with a minus sign in front just if the double has one. -/
def InDecimal (x : Double) (text : List Char) : Prop :=
  ∃ whole fraction, Digits whole ∧ Digits fraction ∧
    text = (if x.isNegative then ['-'] else []) ++ whole ++ '.' :: fraction ∧
    x.value = x.sign * pointedValue whole fraction

/-- Ten decimal places hold ten binary ones, so nothing is rounded away. -/
theorem fixed_inDecimal {x : Double} (h : x.scaled % exactUnit = 0) :
    x.InDecimal (x.fixed exactPlaces) := by
  obtain ⟨m, hm⟩ := Nat.dvd_of_mod_eq_zero h
  have hten : Nat.pow 10 exactPlaces = 1024 * 9765625 := rfl
  have hround : roundHalfEven (x.scaled * Nat.pow 10 exactPlaces) unit = m * 9765625 := by
    have hexact : x.scaled * Nat.pow 10 exactPlaces = m * 9765625 * unit := by
      rw [hm, hten, unit_eq]
      ring
    rw [hexact, roundHalfEven_exact _ unit_pos]
  obtain ⟨whole, fraction, hw, hf, hlength, htext, hvalue⟩ :=
    @positional_places (m * 9765625) exactPlaces (by decide)
  refine ⟨whole, fraction, hw, hf, ?_, ?_⟩
  · rw [fixed, hround, htext, List.append_assoc]
  · have hunit : (exactUnit : ℚ) ≠ 0 := Nat.cast_ne_zero.2 (Nat.ne_of_gt exactUnit_pos)
    have hshort : (m : ℚ) / 1024 = m * 9765625 / 10 ^ 10 := by ring
    rw [value_eq, pointedValue_eq, hvalue, hlength, hm, unit_eq, exactPlaces]
    push_cast
    rw [mul_div_mul_left _ _ hunit, hshort]

theorem decimalSpelling_inDecimal {x : Double} (h : x.scaled % exactUnit = 0) :
    x.InDecimal x.decimalSpelling := by
  obtain ⟨whole, fraction, hw, hf, htext, hvalue⟩ := fixed_inDecimal h
  obtain ⟨kept, hkept, htrim, hsame⟩ :=
    trimZeros_pointed ((if x.isNegative then ['-'] else []) ++ whole) hf.digit
  refine ⟨whole, kept, hw, hkept, ?_, ?_⟩
  · rw [decimalSpelling, htext, htrim]
  · rw [hvalue, hsame]

theorem InDecimal.isNegative_iff {x : Double} {text : List Char} (h : x.InDecimal text) :
    x.isNegative = true ↔ text.head? = some '-' := by
  obtain ⟨whole, fraction, hw, -, rfl, -⟩ := h
  cases x.isNegative with
  | true => simp
  | false =>
    obtain ⟨c, rest, rfl⟩ := List.exists_cons_of_ne_nil hw.ne_nil
    have hc : c ≠ '-' := by
      rintro rfl
      exact absurd (hw.digit '-' List.mem_cons_self) (by decide)
    simpa using hc

theorem InDecimal.unique {x y : Double} {text : List Char} (hx : x.InDecimal text)
    (hy : y.InDecimal text) : x.isNegative = y.isNegative ∧ x.value = y.value := by
  have hsign : x.isNegative = y.isNegative := by
    rw [Bool.eq_iff_iff, hx.isNegative_iff, hy.isNegative_iff]
  obtain ⟨whole, fraction, hw, hf, htext, hxvalue⟩ := hx
  obtain ⟨whole', fraction', hw', hf', htext', hyvalue⟩ := hy
  have hdigits : whole ++ '.' :: fraction = whole' ++ '.' :: fraction' := by
    have h := htext.symm.trans htext'
    rw [hsign, List.append_assoc, List.append_assoc] at h
    exact List.append_cancel_left h
  have hwhole : whole = whole' := by
    have h := congrArg (List.takeWhile Char.isDigit) hdigits
    rwa [takeWhile_of_break hw.digit (by simp), takeWhile_of_break hw'.digit (by simp)] at h
  have hfraction : fraction = fraction' := by
    rw [hwhole] at hdigits
    exact (List.cons.inj (List.append_cancel_left hdigits)).2
  refine ⟨hsign, ?_⟩
  rw [hxvalue, hyvalue, hwhole, hfraction, sign, sign, hsign]

/-! ## All spellings -/

/-- The text is the bits of the double in sixteen hexadecimal digits. -/
def InHex (x : Double) (text : List Char) : Prop :=
  ∃ digits, text = '0' :: 'x' :: digits ∧ digits.length = 16 ∧ (∀ c ∈ digits, c ∈ upperHex) ∧
    hexValue digits = x.bits.toNat

theorem InDecimal.not_inHex {x y : Double} {text : List Char} (h : x.InDecimal text) :
    ¬ y.InHex text := by
  obtain ⟨whole, fraction, hw, hf, rfl, -⟩ := h
  rintro ⟨digits, htext, -⟩
  have hmem : 'x' ∈ (if x.isNegative then ['-'] else []) ++ whole ++ '.' :: fraction := by
    rw [htext]
    simp
  have hdigit : 'x'.isDigit = false := rfl
  rw [List.mem_append, List.mem_append, List.mem_cons] at hmem
  rcases hmem with (hsign | hmem) | hpoint | hmem
  · split at hsign <;> simp at hsign
  · rw [hw.digit _ hmem] at hdigit
    cases hdigit
  · cases hpoint
  · rw [hf.digit _ hmem] at hdigit
    cases hdigit

theorem exact_spelled (x : Double) :
    (x.Short ∧ x.InDecimal x.exact) ∨ (¬ x.Short ∧ x.InHex x.exact) := by
  unfold exact
  split
  · rename_i h
    have hshort := (hasDecimalSpelling_iff x).1 h
    exact .inl ⟨hshort, decimalSpelling_inDecimal ((exists_whole_iff x).1 hshort.2.2)⟩
  · rename_i h
    refine .inr ⟨fun hshort => h ((hasDecimalSpelling_iff x).2 hshort), _, rfl,
      length_hexDigits 16 _, fun c hc => mem_upperHex_of_mem_hexDigits hc, ?_⟩
    rw [hexValue_hexDigits]
    exact Nat.mod_eq_of_lt x.bits.toNat_lt

/-- Code spells a double as its very value in decimal if it is below a thousand million and has at
most ten binary places, and as its bits otherwise. No two doubles are spelled alike, not even two
zeros or two NaNs. -/
theorem exact_faithful :
    (∀ x : Double, (x.Short ∧ x.InDecimal x.exact) ∨ (¬ x.Short ∧ x.InHex x.exact)) ∧
    Function.Injective exact := by
  refine ⟨exact_spelled, fun x y h => ?_⟩
  have hx := exact_spelled x
  rw [h] at hx
  rcases hx with ⟨hxshort, hx⟩ | ⟨-, hx⟩ <;>
    rcases exact_spelled y with ⟨hyshort, hy⟩ | ⟨-, hy⟩
  · obtain ⟨hsign, hvalue⟩ := hx.unique hy
    exact eq_of_value hxshort.1 hyshort.1 hsign hvalue
  · exact absurd hy hx.not_inHex
  · exact absurd hx hy.not_inHex
  · obtain ⟨digits, htext, -, -, hxbits⟩ := hx
    obtain ⟨digits', htext', -, -, hybits⟩ := hy
    obtain rfl : digits = digits' := by simpa using htext.symm.trans htext'
    exact congrArg Double.mk (UInt64.toNat_inj.1 (hxbits.symm.trans hybits))

/-- A negative zero, the least positive double with ten places and the one below a thousand
million. -/
example : [(⟨0x8000000000000000⟩ : Double), ⟨0x3F50000000000000⟩, ⟨0x41CDCD64FFFFFFF8⟩].map
    (String.ofList ∘ exact) = ["-0.0", "0.0009765625", "0x41CDCD64FFFFFFF8"] := by
  decide +kernel

end Double

end Leveret
