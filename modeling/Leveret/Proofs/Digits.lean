import Mathlib.Algebra.Group.Nat.Defs
import Leveret.Value.Basic

/-!
# Digits

What is written for a whole number reads back as that number.
-/

namespace Leveret

namespace Text

/-- A text of digits, at least one. -/
structure Digits (text : List Char) : Prop where
  ne_nil : text ≠ []
  digit : ∀ c ∈ text, c.isDigit = true

theorem digits_writeNatural (n : Nat) : Digits (writeNatural n) :=
  ⟨Nat.toDigits_ne_nil, fun _ hc => Nat.isDigit_of_mem_toDigits (by decide) (by decide) hc⟩

theorem Digits.append {text text' : List Char} (h : Digits text)
    (h' : ∀ c ∈ text', c.isDigit = true) : Digits (text ++ text') := by
  refine ⟨fun hnil => h.ne_nil (List.append_eq_nil_iff.1 hnil).1, fun c hc => ?_⟩
  exact (List.mem_append.1 hc).elim (h.digit c) (h' c)

theorem isDigit_of_mem_zeros {n : Nat} {c : Char} (h : c ∈ List.replicate n '0') :
    c.isDigit = true := by
  rw [List.eq_of_mem_replicate h]
  rfl

/-! ## The end of a run -/

section Runs

variable {p : Char → Bool} {text rest : List Char} {c : Char}

theorem takeWhile_of_break (ht : ∀ c ∈ text, p c = true) (hrest : ∀ c ∈ rest.head?, p c = false) :
    (text ++ rest).takeWhile p = text := by
  rw [List.takeWhile_append_of_pos ht]
  cases rest with
  | nil => simp
  | cons c rest => simp [hrest c rfl]

theorem dropWhile_of_break (ht : ∀ c ∈ text, p c = true) (hrest : ∀ c ∈ rest.head?, p c = false) :
    (text ++ rest).dropWhile p = rest := by
  rw [List.dropWhile_append_of_pos ht]
  cases rest with
  | nil => simp
  | cons c rest => simp [hrest c rfl]

theorem takeWhile_append_stop (h : p c = false) :
    (text ++ c :: rest).takeWhile p = text.takeWhile p := by
  rw [List.takeWhile_append, List.takeWhile_cons_of_neg (by simp [h]), List.append_nil]
  split
  · rename_i hlength
    exact ((List.takeWhile_prefix p).eq_of_length hlength).symm
  · rfl

theorem dropWhile_append_stop (h : p c = false) :
    (text ++ c :: rest).dropWhile p = text.dropWhile p ++ c :: rest := by
  rw [List.dropWhile_append]
  split
  · rename_i hempty
    rw [List.isEmpty_iff.1 hempty, List.dropWhile_cons_of_neg (by simp [h]), List.nil_append]
  · rfl

end Runs

/-! ## Values -/

theorem digitsValue_eq (start : Nat) (text : List Char) :
    digitsValue start text = Nat.ofDigitChars 10 text start := rfl

theorem digitsValue_append (start : Nat) (text text' : List Char) :
    digitsValue start (text ++ text') = digitsValue (digitsValue start text) text' :=
  Nat.ofDigitChars_append start

theorem digitsValue_writeNatural (n : Nat) : digitsValue 0 (writeNatural n) = n :=
  Nat.ofDigitChars_ten_toDigits

theorem digitsValue_zeros (start n : Nat) :
    digitsValue start (List.replicate n '0') = start * 10 ^ n := by
  rw [digitsValue_eq, Nat.ofDigitChars_replicate_zero, Nat.mul_comm]

/-! ## Reading -/

theorem readSign_of_digit {c : Char} (h : c.isDigit = true) (rest : List Char) :
    readSign (c :: rest) = (false, c :: rest) := by
  unfold readSign
  split
  · rename_i heq
    cases heq
    cases h
  · rename_i heq
    cases heq
    cases h
  · rfl

theorem Digits.readSign {text : List Char} (h : Digits text) (rest : List Char) :
    readSign (text ++ rest) = (false, text ++ rest) := by
  cases text with
  | nil => exact absurd rfl h.ne_nil
  | cons c text => exact readSign_of_digit (h.digit c List.mem_cons_self) (text ++ rest)

theorem Digits.readInteger? {text : List Char} (h : Digits text) :
    readInteger? text = some (digitsValue 0 text : Int) := by
  have hsign := h.readSign []
  rw [List.append_nil] at hsign
  unfold Text.readInteger?
  rw [hsign]
  simp only [ne_eq, h.ne_nil, not_false_eq_true, List.all_eq_true, true_and]
  rw [if_pos h.digit]
  rfl

end Text

open Text

theorem nonneg_of_readInt32? {text : List Char} {n : Int32} (h : Digits text)
    (hn : readInt32? text = some n) : 0 ≤ n.toInt := by
  unfold readInt32? at hn
  rw [h.readInteger?] at hn
  dsimp only at hn
  split at hn
  · rename_i hrange
    cases hn
    rw [Int32.toInt_ofInt_of_le (by omega) (by omega)]
    omega
  · cases hn

theorem writeInteger_nonneg {n : Int} (h : 0 ≤ n) : writeInteger n = writeNatural n.toNat := by
  unfold writeInteger
  rw [if_neg (Int.not_lt.2 h)]
  congr 1
  omega

theorem readInt32?_writeInteger {n : Int32} (h : 0 ≤ n.toInt) :
    readInt32? (writeInteger n.toInt) = some n := by
  rw [writeInteger_nonneg h]
  unfold readInt32?
  rw [(digits_writeNatural _).readInteger?, digitsValue_writeNatural]
  dsimp only
  have hlow := n.le_toInt
  have hhigh := n.toInt_lt
  rw [Int.toNat_of_nonneg h, if_pos (by omega), Int32.ofInt_toInt]

end Leveret
