import Mathlib.Data.List.TakeDrop
import Leveret.Double.Reader
import Leveret.Proofs.Digits
import Leveret.Proofs.Doubles.Rounding

/-!
# Spelling doubles

A finite double without a minus sign is written as digits around a point, and it reads back as
itself.
-/

namespace Leveret

open Text

/-! ## Digits around a point -/

/-- The text is digits around a point, and the number is the one it spells. On one side of the
point there may be none. -/
inductive Pointed : List Char → Decimal → Prop where
  | mk {whole fraction : List Char} (hw : ∀ c ∈ whole, c.isDigit = true)
      (hf : ∀ c ∈ fraction, c.isDigit = true) (hne : ¬ (whole = [] ∧ fraction = [])) :
      Pointed (whole ++ '.' :: fraction) ⟨digitsValue 0 (whole ++ fraction), -fraction.length⟩

namespace Double

theorem span_isDigit {digits rest : List Char} (h : ∀ c ∈ digits, c.isDigit = true)
    (hrest : ∀ c ∈ rest.head?, c.isDigit = false) :
    (digits ++ rest).span Char.isDigit = (digits, rest) := by
  rw [List.span_eq_takeWhile_dropWhile, takeWhile_of_break h hrest, dropWhile_of_break h hrest]

theorem readDecimal?_pointed {text : List Char} {d : Decimal} (h : Pointed text d) :
    readDecimal? text = some d := by
  cases h with
  | @mk whole fraction hw hf hne =>
    have hspan : (whole ++ '.' :: fraction).span Char.isDigit = (whole, '.' :: fraction) :=
      span_isDigit hw (by simp)
    have hfraction : readFraction ('.' :: fraction) = (fraction, []) := by
      have := @span_isDigit fraction [] hf nofun
      rwa [List.append_nil] at this
    unfold readDecimal?
    rw [hspan]
    dsimp only
    rw [hfraction]
    dsimp only
    rw [if_neg hne, readScale?, Option.map_some, digitsValue_append,
      Int.zero_sub]

theorem read?_pointed {text : List Char} {d : Decimal} (h : Pointed text d) :
    read? text = some (ofDecimal false d) := by
  have hsign : readSign text = (false, text) := by
    cases h with
    | @mk whole fraction hw =>
      cases whole with
      | nil => rfl
      | cons c whole => exact readSign_of_digit (hw c List.mem_cons_self) _
  unfold read?
  rw [hsign]
  dsimp only
  rw [readDecimal?_pointed h]

/-! ## Doubles without a minus sign -/

theorem decimalMagnitude_le (d : Decimal) : decimalMagnitude d ≤ infinityMagnitude := by
  rw [decimalMagnitude_eq]
  exact Nat.min_le_right _ _

theorem toNat_ofMagnitude {m : Nat} (h : m ≤ infinityMagnitude) :
    (ofMagnitude false m).bits.toNat = m := by
  unfold infinityMagnitude at h
  unfold ofMagnitude
  simp only [Bool.false_eq_true, if_false, Nat.add_zero, UInt64.toNat_ofNat']
  exact Nat.mod_eq_of_lt (by omega)

theorem ofDecimal_nonneg (d : Decimal) : (ofDecimal false d).isNegative = false ∧
    (ofDecimal false d).magnitude ≤ infinityMagnitude := by
  have hle := decimalMagnitude_le d
  have hbits : (ofDecimal false d).bits.toNat = _ := toNat_ofMagnitude hle
  unfold isNegative magnitude
  rw [hbits]
  unfold infinityMagnitude at *
  refine ⟨decide_eq_false (by omega), by omega⟩

theorem ofMagnitude_magnitude {x : Double} (h : x.isNegative = false) :
    ofMagnitude false x.magnitude = x := by
  have hlt : ¬ 0x8000000000000000 ≤ x.bits.toNat := of_decide_eq_false h
  have hm : x.magnitude = x.bits.toNat := Nat.mod_eq_of_lt (by omega)
  rw [hm]
  unfold ofMagnitude
  simp only [Bool.false_eq_true, if_false, Nat.add_zero, UInt64.ofNat_toNat]

/-! ## Writing -/

theorem decimalMagnitude_strip (fuel : Nat) (d : Decimal) :
    decimalMagnitude (d.strip fuel) = decimalMagnitude d := by
  induction fuel generalizing d with
  | zero => rfl
  | succ fuel ih =>
    rw [Decimal.strip]
    split
    · rename_i hzero
      have hten : d = ⟨10 * (d.digits / 10), d.exponent⟩ := by
        rw [Nat.mul_div_cancel' (Nat.dvd_of_mod_eq_zero hzero)]
      rw [ih, ← decimalMagnitude_ten_mul, ← hten]
    · rfl

theorem decimalMagnitude_fives (scaled k : Nat) :
    decimalMagnitude ⟨scaled * Nat.pow 5 k, -k⟩ = nearestMagnitude scaled (Nat.pow 2 k) := by
  have hten : 10 ^ k = 2 ^ k * 5 ^ k := Nat.mul_pow 2 5 k
  have hnum : (-(k : Int)).toNat = 0 := by omega
  have hden : (- -(k : Int)).toNat = k := by omega
  rw [decimalMagnitude_eq]
  dsimp only
  rw [hnum, hden, hten, Nat.pow_eq, Nat.pow_eq, Nat.pow_zero, Nat.mul_one,
    nearestMagnitude_mul_right _ _ (Nat.pow_pos (by decide))]

theorem decimalMagnitude_inFull (scaled : Nat) :
    decimalMagnitude (inFull scaled) = nearestMagnitude scaled unit := by
  unfold inFull unit
  apply decimalMagnitude_fives

/-- Whatever grid the search ends on, the number found reads as the double. -/
theorem decimalMagnitude_searchGrids {m scaled : Nat} {leading : Int}
    (h : nearestMagnitude scaled unit = m) (fuel count : Nat) :
    decimalMagnitude (searchGrids m scaled leading fuel count) = m := by
  induction fuel generalizing count with
  | zero => rw [searchGrids, decimalMagnitude_inFull, h]
  | succ fuel ih =>
    rw [searchGrids]
    cases hfound : (neighbours scaled (leading + 1 - count)).find? (decimalMagnitude · == m) with
    | none => exact ih _
    | some d =>
      have hd := List.find?_some hfound
      exact beq_iff_eq.1 hd

theorem decimalMagnitude_shortest {x : Double} (h : x.isFinite = true) :
    decimalMagnitude x.shortest = x.magnitude := by
  unfold shortest
  dsimp only
  rw [decimalMagnitude_strip, decimalMagnitude_searchGrids (nearestMagnitude_scaled h)]

/-! ## Round trip -/

theorem not_contains_point {text : List Char} (h : Digits text) : text.contains '.' = false := by
  rw [Bool.eq_false_iff, ne_eq, List.contains_iff_mem]
  intro hmem
  cases h.digit '.' hmem

theorem positional_places (n : Nat) {places : Nat} (hpos : 0 < places) :
    ∃ whole fraction, Digits whole ∧ Digits fraction ∧ fraction.length = places ∧
      Decimal.positional ⟨n, -places⟩ = whole ++ '.' :: fraction ∧
      digitsValue 0 (whole ++ fraction) = n := by
  have hdigits := digits_writeNatural n
  have hnumber := digitsValue_writeNatural n
  have hplaces : (- -(places : Int)).toNat = places := by omega
  unfold Decimal.positional
  simp only [hplaces, if_neg (Nat.ne_of_gt hpos)]
  generalize writeNatural n = digits at hdigits hnumber
  have hvalue : digitsValue 0 (List.replicate (places + 1 - digits.length) '0' ++ digits) = n := by
    rw [digitsValue_append, digitsValue_zeros, Nat.zero_mul, hnumber]
  have hdigit : ∀ c ∈ List.replicate (places + 1 - digits.length) '0' ++ digits,
      c.isDigit = true := by
    intro c hc
    exact (List.mem_append.1 hc).elim isDigit_of_mem_zeros (hdigits.digit c)
  have hlength : places < (List.replicate (places + 1 - digits.length) '0' ++ digits).length := by
    rw [List.length_append, List.length_replicate]
    omega
  generalize List.replicate (places + 1 - digits.length) '0' ++ digits = padded at *
  refine ⟨padded.take (padded.length - places), padded.drop (padded.length - places),
    ⟨?_, fun c hc => hdigit c (List.mem_of_mem_take hc)⟩,
    ⟨?_, fun c hc => hdigit c (List.mem_of_mem_drop hc)⟩, ?_, rfl, ?_⟩
  · apply List.ne_nil_of_length_pos
    rw [List.length_take]
    omega
  · apply List.ne_nil_of_length_pos
    rw [List.length_drop]
    omega
  · rw [List.length_drop]
    omega
  · rw [List.take_append_drop, hvalue]

theorem positional_pointed (d : Decimal) : ∃ d',
    Pointed (if d.positional.contains '.' then d.positional else d.positional ++ ['.', '0']) d' ∧
      decimalMagnitude d' = decimalMagnitude d := by
  by_cases hplaces : (-d.exponent).toNat = 0
  · have hdigits := digits_writeNatural d.digits
    have hvalue := digitsValue_writeNatural d.digits
    unfold Decimal.positional
    simp only [hplaces, if_true]
    generalize writeNatural d.digits = digits at hdigits hvalue
    have hwhole := hdigits.append fun c hc => isDigit_of_mem_zeros (n := d.exponent.toNat) hc
    rw [not_contains_point hwhole, if_neg Bool.false_ne_true]
    refine ⟨_, .mk hwhole.digit (by simp) (by simp), ?_⟩
    have hnumber : digitsValue 0 (digits ++ List.replicate d.exponent.toNat '0' ++ ['0']) =
        d.digits * 10 ^ (d.exponent.toNat + 1) := by
      rw [List.append_assoc, digitsValue_append, hvalue, ← List.replicate_succ', digitsValue_zeros]
    have hexponent : -(['0'].length : Int) + (d.exponent.toNat + 1 : Nat) = d.exponent := by
      rw [List.length_singleton]
      omega
    rw [hnumber, decimalMagnitude_mul_pow, hexponent]
  · have hexponent : d.exponent = -((-d.exponent).toNat : Int) := by omega
    obtain ⟨whole, fraction, hw, hf, hlength, htext, hvalue⟩ :=
      positional_places d.digits (Nat.pos_of_ne_zero hplaces)
    rw [← hexponent] at htext
    rw [htext, if_pos (List.contains_iff_mem.2 (by simp))]
    refine ⟨_, .mk hw.digit hf.digit fun hnil => hw.ne_nil hnil.1, ?_⟩
    rw [hvalue, hlength, ← hexponent]

theorem format_pointed {x : Double} (hx : x.isFinite = true) (hs : x.isNegative = false) :
    ∃ d, Pointed x.format d ∧ decimalMagnitude d = x.magnitude := by
  have hlt : x.magnitude < infinityMagnitude := of_decide_eq_true hx
  have hnan : x.isNaN = false := decide_eq_false (Nat.lt_asymm hlt)
  unfold format
  simp only [hnan, hs, hx, Bool.false_eq_true, if_false, Bool.not_true, List.nil_append]
  split
  · rename_i hzero
    exact ⟨_, @Pointed.mk ['0'] ['0'] (by simp) (by simp) (by simp), by rw [hzero]; rfl⟩
  · obtain ⟨d, hd, hm⟩ := positional_pointed x.shortest
    exact ⟨d, hd, hm.trans (decimalMagnitude_shortest hx)⟩

theorem read?_format {x : Double} (hx : x.isFinite = true) (hs : x.isNegative = false) :
    read? x.format = some x := by
  obtain ⟨d, hd, hm⟩ := format_pointed hx hs
  rw [read?_pointed hd, ofDecimal, hm, ofMagnitude_magnitude hs]

end Double

end Leveret
