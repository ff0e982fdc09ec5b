import Mathlib.Data.Nat.Digits.Defs
import MarketLoad.Powers
import MarketLoad.Text.Digits

/-!
# Digit texts

A number is written in one way only (`digits_injective`), without a zero in front
(`writesCount_digits`). Padding keeps the number (`ofDigits_paddedDigits`) and makes the width
exact (`length_paddedDigits`).
-/

namespace MarketLoad.Text

theorem digits_ne_nil (n : Nat) : digits n ≠ [] := Nat.toDigits_ne_nil

theorem digits_injective : Function.Injective digits := by
  intro m n h
  rw [← ofDigits_digits m, h, ofDigits_digits]

theorem head?_digits_ne_zero {n : Nat} (h : 0 < n) : (digits n).head? ≠ some '0' := by
  induction n using Nat.strong_induction_on with
  | _ n ih =>
    by_cases hlt : n < 10
    · have hall : ∀ d < 10, 0 < d → [Nat.digitChar d].head? ≠ some '0' := by decide
      rw [digits, Nat.toDigits_of_lt_base hlt]
      exact hall n hlt h
    · have hfront := ih (n / 10) (by omega) (by omega)
      rw [digits, Nat.toDigits_of_base_le (by decide) (by omega), List.head?_append]
      cases hhead : (Nat.toDigits 10 (n / 10)).head? with
      | none => exact absurd (List.head?_eq_none_iff.1 hhead) Nat.toDigits_ne_nil
      | some c => rwa [digits, hhead] at hfront

/-- Only zero is written with a zero in front. -/
theorem digits_of_head?_eq_zero {n : Nat} (h : (digits n).head? = some '0') : digits n = ['0'] := by
  rcases Nat.eq_zero_or_pos n with rfl | hpos
  · exact Nat.toDigits_zero 10
  · exact absurd h (head?_digits_ne_zero hpos)

/-- A digit text without zeros in front, and the number that it writes. -/
structure WritesCount (text : List Char) (n : Nat) : Prop where
  not_empty : text ≠ []
  digits : ∀ c ∈ text, c.isDigit = true
  front : text.head? ≠ some '0'
  number : ofDigits text = n

theorem writesCount_digits {n : Nat} (h : 0 < n) : WritesCount (digits n) n where
  not_empty := digits_ne_nil n
  digits _ := isDigit_of_mem_digits
  front := head?_digits_ne_zero h
  number := ofDigits_digits n

theorem digitValue?_eq_some {c : Char} (h : c.isDigit = true) :
    digitValue? c = some (c.toNat - '0'.toNat) := if_pos h

theorem ofDigits_append (ds es : List Char) :
    ofDigits (ds ++ es) = ofDigits ds * tenTo es.length + ofDigits es := by
  rw [ofDigits, Nat.ofDigitChars_append, Nat.ofDigitChars_eq_ofDigitChars_zero, Nat.mul_comm]
  rfl

/-- Digits read onto a number do not make it smaller. -/
theorem le_ofDigitChars (ds : List Char) (n : Nat) : n ≤ Nat.ofDigitChars 10 ds n := by
  rw [Nat.ofDigitChars_eq_ofDigitChars_zero]
  have hpos : 0 < 10 ^ ds.length := Nat.pow_pos (by decide)
  exact Nat.le_trans (Nat.le_mul_of_pos_left n hpos) (Nat.le_add_right ..)

theorem isDigit_of_mem_paddedDigits {width n : Nat} {c : Char} (h : c ∈ paddedDigits width n) :
    c.isDigit = true := by
  rcases List.mem_append.1 h with h | h
  · rw [List.eq_of_mem_replicate h]
    decide
  · exact isDigit_of_mem_digits h

theorem length_paddedDigits {width n : Nat} (hwidth : 0 < width) (h : n < tenTo width) :
    (paddedDigits width n).length = width := by
  have hle : (digits n).length ≤ width := Nat.toDigits_length 10 n width hwidth h
  rw [paddedDigits, List.length_append, List.length_replicate]
  omega

/-- Zeros in front do not change the number that digits are read onto. -/
theorem ofDigits_paddedDigits (width n : Nat) : ofDigits (paddedDigits width n) = n := by
  rw [paddedDigits, ofDigits, Nat.ofDigitChars_append, Nat.ofDigitChars_replicate_zero,
    Nat.mul_zero]
  exact ofDigits_digits n

end MarketLoad.Text
