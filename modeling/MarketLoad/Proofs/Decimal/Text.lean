import MarketLoad.Decimal.Text
import MarketLoad.Proofs.Decimal.Value
import MarketLoad.Proofs.Text.Digits

/-!
# Decimals read from their texts

The text of a decimal has as many digits as the decimal holds, so no digit of it is in excess and
reading it gives the decimal back, less the sign of a zero (`Decimal.read?_text`).
-/

namespace MarketLoad.Decimal

open Text

variable {excess : Excess} {negative : Bool}

/-- A digit that leaves room is taken onto the coefficient. -/
theorem readDigits?_digit {begun point : Bool} {coefficient scale : Nat} {c : Char}
    {rest : List Char} (hc : c.isDigit = true) (hroom : point = true → scale < maxScale)
    (hfits : 10 * coefficient + (c.toNat - '0'.toNat) < coefficientLimit) :
    readDigits? excess negative begun point coefficient scale (c :: rest) =
      readDigits? excess negative true point (10 * coefficient + (c.toNat - '0'.toNat))
        (if point then scale + 1 else scale) rest := by
  have hmax : (point && scale == maxScale) = false := by
    cases point with
    | false => rfl
    | true => simpa using Nat.ne_of_lt (hroom rfl)
  simp only [readDigits?, hmax, digitValue?_eq_some hc, hfits, Bool.false_eq_true, if_true, if_false]

/-- Digits before the point are read onto the coefficient. -/
theorem readDigits?_append (begun : Bool) {ds : List Char} (hds : ∀ c ∈ ds, c.isDigit = true)
    (coefficient : Nat) (hfits : Nat.ofDigitChars 10 ds coefficient < coefficientLimit)
    (rest : List Char) :
    readDigits? excess negative begun false coefficient 0 (ds ++ rest) =
      readDigits? excess negative (begun || !ds.isEmpty) false
        (Nat.ofDigitChars 10 ds coefficient) 0 rest := by
  induction ds generalizing begun coefficient with
  | nil => simp [Nat.ofDigitChars_nil]
  | cons c ds ih =>
    obtain ⟨hc, hds⟩ := List.forall_mem_cons.1 hds
    rw [Nat.ofDigitChars_cons] at hfits ⊢
    have hnext := Nat.lt_of_le_of_lt (le_ofDigitChars ds _) hfits
    rw [List.cons_append, readDigits?_digit hc (by simp) hnext]
    simpa using ih true hds _ hfits

/-- Digits after the point are read onto the coefficient, and each makes the scale one more. -/
theorem readDigits?_fraction {ds : List Char} (hds : ∀ c ∈ ds, c.isDigit = true)
    {coefficient scale : Nat} (hfits : Nat.ofDigitChars 10 ds coefficient < coefficientLimit)
    (hscale : scale + ds.length ≤ maxScale) :
    readDigits? excess negative true true coefficient scale ds =
      ofParts? negative (Nat.ofDigitChars 10 ds coefficient) (scale + ds.length) := by
  induction ds generalizing coefficient scale with
  | nil => simp [readDigits?, Nat.ofDigitChars_nil]
  | cons c ds ih =>
    obtain ⟨hc, hds⟩ := List.forall_mem_cons.1 hds
    rw [Nat.ofDigitChars_cons] at hfits ⊢
    rw [List.length_cons] at hscale ⊢
    have hnext := Nat.lt_of_le_of_lt (le_ofDigitChars ds _) hfits
    rw [readDigits?_digit hc (by intro; omega) hnext]
    simp only [if_true]
    rw [ih hds hfits (by omega)]
    congr 1
    omega

theorem readDigits?_pointed (excess : Excess) (negative : Bool) (d : Decimal) :
    readDigits? excess negative false false 0 0 (pointed d.coefficient d.scale) =
      ofParts? negative d.coefficient d.scale := by
  have hnonempty (n : Nat) : (digits n).isEmpty = false := by simp [digits_ne_nil]
  have hdigits (n : Nat) : ∀ c ∈ digits n, c.isDigit = true := fun _ => isDigit_of_mem_digits
  rw [pointed]
  split
  · next hscale =>
    have hfits : Nat.ofDigitChars 10 (digits d.coefficient) 0 < coefficientLimit := by
      rw [← ofDigits, ofDigits_digits]
      exact d.coefficient_lt
    rw [← List.append_nil (digits _), readDigits?_append false (hdigits _) 0 hfits, ← ofDigits,
      ofDigits_digits, hnonempty, hscale]
    simp [readDigits?]
  · next hscale =>
    have hlength := length_paddedDigits (Nat.pos_of_ne_zero hscale)
      (Nat.mod_lt d.coefficient (tenTo_pos d.scale))
    have hwhole : Nat.ofDigitChars 10 (digits (d.coefficient / tenTo d.scale)) 0 =
        d.coefficient / tenTo d.scale := ofDigits_digits _
    -- The digits after the point complete the coefficient that those before it begin.
    have hcoefficient : Nat.ofDigitChars 10
        (paddedDigits d.scale (d.coefficient % tenTo d.scale)) (d.coefficient / tenTo d.scale) =
        d.coefficient := by
      rw [Nat.ofDigitChars_eq_ofDigitChars_zero, ← ofDigits, ofDigits_paddedDigits, hlength]
      exact Nat.div_add_mod ..
    have hbelow := Nat.lt_of_le_of_lt (Nat.div_le_self d.coefficient (tenTo d.scale))
      d.coefficient_lt
    rw [readDigits?_append false (hdigits _) 0 (by rwa [hwhole]), hwhole, hnonempty]
    have hpoint (cs : List Char) (n : Nat) :
        readDigits? excess negative true false n 0 ('.' :: cs) =
          readDigits? excess negative true true n 0 cs := by
      simp [readDigits?, digitValue?]
    rw [Bool.false_or, Bool.not_false, hpoint,
      readDigits?_fraction (fun _ => isDigit_of_mem_paddedDigits)
        (by rw [hcoefficient]; exact d.coefficient_lt)
        (by rw [hlength]; have := d.scale_le; omega), hcoefficient, hlength, Nat.zero_add]

/-- A text of digits does not start with a sign. -/
theorem exists_pointed_eq_cons (magnitude scale : Nat) :
    ∃ c cs, pointed magnitude scale = c :: cs ∧ c.isDigit = true := by
  have hcons (n : Nat) : ∃ c cs, digits n = c :: cs ∧ c.isDigit = true := by
    obtain ⟨c, cs, h⟩ := List.exists_cons_of_ne_nil (digits_ne_nil n)
    exact ⟨c, cs, h, isDigit_of_mem_digits (h ▸ List.mem_cons_self)⟩
  rw [pointed]
  split
  · exact hcons magnitude
  · obtain ⟨c, cs, h, hc⟩ := hcons (magnitude / tenTo scale)
    exact ⟨c, _, by rw [h, List.cons_append], hc⟩

theorem readWith?_text (d : Decimal) : readWith? excess d.text.toList = some d.plain := by
  rw [text, withSign, String.toList_ofList]
  cases hnegative : d.negative with
  | true => rw [if_pos rfl, readWith?, readDigits?_pointed, ← hnegative, ofParts?_self]
  | false =>
    obtain ⟨c, cs, hcs, hc⟩ := exists_pointed_eq_cons d.coefficient d.scale
    rw [if_neg Bool.false_ne_true, ← ofParts?_self, hnegative, ← readDigits?_pointed excess, hcs]
    -- A digit is neither of the signs.
    unfold readWith?
    split
    · next h => cases h; exact absurd hc (by decide)
    · next h => cases h; exact absurd hc (by decide)
    · rfl

/-- A decimal is read from its text, without the sign of a zero. -/
theorem read?_text (d : Decimal) : read? d.text = some d.plain := by
  rw [read?, readRounded?, readWith?_text, Option.some_or]

end MarketLoad.Decimal
