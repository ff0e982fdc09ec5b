import MarketLoad.Proofs.Decimal.Value
import MarketLoad.Proofs.Price
import MarketLoad.Proofs.Text.Digits

/-!
# Prices as text

The text of a price is perhaps a minus, digits, a point and two more digits (`WritesCents`), and it
writes one number only (`WritesCents.unique`): the price cut off to cents
(`Price.writesCents_text`). A price that was made has whole cents (`Price.IsMade.scale_le`), so its
text writes the price itself (`Price.IsMade.writesCents_text`). Cutting off and rounding agree as
long as less than half a cent is left (`Decimal.cut_eq_roundPlaces_iff`).
-/

namespace MarketLoad

open Text

/-- A text of perhaps a minus, digits, a point and two digits, and the number that it writes. -/
def WritesCents (text : List Char) (number : ℚ) : Prop :=
  ∃ (negative : Bool) (whole : List Char) (tens ones : Char),
    text = (if negative then ['-'] else []) ++ (whole ++ ['.', tens, ones]) ∧ whole ≠ [] ∧
      (∀ c ∈ whole ++ [tens, ones], c.isDigit = true) ∧
      number = (if negative then -1 else 1) * (ofDigits (whole ++ [tens, ones]) / 100)

theorem WritesCents.unique {text : List Char} {a b : ℚ} (ha : WritesCents text a)
    (hb : WritesCents text b) : a = b := by
  obtain ⟨negative, whole, tens, ones, htext, -, hdigits, rfl⟩ := ha
  obtain ⟨negative', whole', tens', ones', htext', -, hdigits', rfl⟩ := hb
  have hsame := htext.symm.trans htext'
  rw [← List.append_assoc, ← List.append_assoc] at hsame
  obtain ⟨hfront, htail⟩ := List.append_inj' hsame rfl
  simp only [List.cons.injEq, and_true, true_and] at htail
  obtain ⟨rfl, rfl⟩ := htail
  -- A minus is no digit, so both texts have one or neither has.
  have hminus {whole rest : List Char} (hdigits : ∀ c ∈ whole ++ [tens, ones], c.isDigit = true) :
      whole ≠ '-' :: rest := by
    rintro rfl
    exact absurd (hdigits '-' List.mem_cons_self) (by decide)
  cases negative <;> cases negative' <;> simp only [Bool.false_eq_true, if_true, if_false,
    List.nil_append, List.cons_append, List.cons.injEq, true_and] at hfront
  · rw [hfront]
  · exact absurd hfront (hminus hdigits)
  · exact absurd hfront.symm (hminus hdigits')
  · rw [hfront]

/-- A quotient is rounded down if less than a half is left. -/
theorem roundHalfUp_eq_div_iff {n d : Nat} (hd : 0 < d) :
    roundHalfUp n d = n / d ↔ 2 * (n % d) < d := by
  have hdiv := Nat.div_add_mod n d
  have hmod := Nat.mod_lt n hd
  generalize n / d = q at hdiv ⊢
  generalize n % d = r at hdiv hmod ⊢
  subst hdiv
  have hsplit : 2 * (d * q + r) + d = 2 * r + d + 2 * d * q := by ring
  rw [roundHalfUp, hsplit, Nat.add_mul_div_left _ _ (by omega), Nat.add_eq_right,
    Nat.div_eq_zero_iff_lt (by omega)]
  omega

namespace Decimal

variable (d : Decimal)

/-- The whole cents of a decimal, without its sign. -/
def cents : Nat :=
  if d.scale ≤ 2 then d.coefficient * tenTo (2 - d.scale)
  else d.coefficient / tenTo (d.scale - 2)

/-- The number that is left when all after the cents is cut off. -/
def cut : ℚ := d.sign * (d.cents / 100)

theorem writesCents_fixed : WritesCents (d.fixed 2).toList d.cut := by
  have hlength : (paddedDigits 2 (d.cents % tenTo 2)).length = 2 :=
    length_paddedDigits (by decide) (Nat.mod_lt d.cents (tenTo_pos 2))
  match hpair : paddedDigits 2 (d.cents % tenTo 2), hlength with
  | [tens, ones], _ =>
    have hvalue : ofDigits (digits (d.cents / tenTo 2) ++ [tens, ones]) = d.cents := by
      rw [← hpair, ofDigits_append, ofDigits_digits, ofDigits_paddedDigits, hpair]
      exact Nat.div_add_mod' ..
    refine ⟨d.negative, digits (d.cents / tenTo 2), tens, ones, ?_, digits_ne_nil _, ?_, ?_⟩
    · have hfixed : d.fixed 2 = d.withSign (pointed d.cents 2) := rfl
      have hpointed : pointed d.cents 2 = digits (d.cents / tenTo 2) ++ ['.', tens, ones] := by
        rw [← hpair]
        rfl
      rw [hfixed, withSign, String.toList_ofList, hpointed]
      cases d.negative <;> rfl
    · intro c hc
      rw [← hpair, List.mem_append] at hc
      exact hc.elim isDigit_of_mem_digits isDigit_of_mem_paddedDigits
    · rw [hvalue, cut, sign]

theorem cut_eq_value (h : d.scale ≤ 2) : d.cut = d.value := by
  have hsplit : (tenTo (2 - d.scale) : ℚ) * tenTo d.scale = 100 := by
    have hnat : tenTo (2 - d.scale) * tenTo d.scale = 100 := by
      rw [← tenTo_add, Nat.sub_add_cancel h]
      rfl
    exact_mod_cast hnat
  rw [cut, value_eq, cents, if_pos h, Nat.cast_mul, ← hsplit, mul_comm (d.coefficient : ℚ),
    mul_div_mul_left _ _ (tenTo_ne_zero _)]

theorem value_roundPlaces (h : ¬ d.scale ≤ 2) : (d.roundPlaces 2).value =
    d.sign * (d.cutDigits (d.scale - 2) / 100) := by
  let kept : Decimal :=
    ⟨d.negative, d.cutDigits (d.scale - 2), 2, d.cutDigits_lt (by omega), by decide⟩
  have hkept : d.roundPlaces 2 = kept.plain := by
    rw [roundPlaces, dif_neg h]
    rfl
  rw [hkept, value_plain, ← kept.cut_eq_value (Nat.le_refl 2)]
  simp [cut, cents, kept, tenTo, sign]

/-- Cutting off is rounding if less than half a cent is cut off. -/
theorem cut_eq_roundPlaces_iff : d.cut = (d.roundPlaces 2).value ↔
    2 * (d.coefficient % tenTo (d.scale - 2)) < tenTo (d.scale - 2) := by
  by_cases h : d.scale ≤ 2
  · have hround : d.roundPlaces 2 = d := dif_pos h
    rw [hround, d.cut_eq_value h, Nat.sub_eq_zero_of_le h, tenTo_zero, Nat.mod_one]
    exact iff_of_true rfl Nat.zero_lt_one
  · rw [d.value_roundPlaces h, cut, cents, if_neg h, mul_right_inj' d.sign_ne_zero,
      div_left_inj' (by norm_num), Nat.cast_inj, eq_comm, cutDigits,
      roundHalfUp_eq_div_iff (tenTo_pos _)]

/-- Rounding changes nothing if nothing is left after the cents. -/
theorem value_roundPlaces_eq_iff : (d.roundPlaces 2).value = d.value ↔
    d.coefficient % tenTo (d.scale - 2) = 0 := by
  by_cases h : d.scale ≤ 2
  · have hround : d.roundPlaces 2 = d := dif_pos h
    rw [hround, Nat.sub_eq_zero_of_le h, tenTo_zero, Nat.mod_one]
    exact iff_of_true rfl rfl
  · have hsplit : (tenTo d.scale : ℚ) = tenTo (d.scale - 2) * 100 := by
      have hnat : tenTo d.scale = tenTo (d.scale - 2) * tenTo 2 := by
        rw [← tenTo_add, Nat.sub_add_cancel (by omega)]
      exact_mod_cast hnat
    rw [d.value_roundPlaces h, value_eq, mul_right_inj' d.sign_ne_zero, hsplit, ← div_div,
      div_left_inj' (by norm_num), eq_div_iff (tenTo_ne_zero _), ← Nat.cast_mul, Nat.cast_inj,
      cutDigits]
    constructor
    · intro hwhole
      rw [← hwhole]
      exact Nat.mul_mod_left ..
    · intro hnone
      have hpos := tenTo_pos (d.scale - 2)
      rw [(roundHalfUp_eq_div_iff hpos).2 (by omega)]
      exact Nat.div_mul_cancel (Nat.dvd_of_mod_eq_zero hnone)

end Decimal

namespace Price

/-- The prices that are made: rounded from a number, read from a text, whole or moved. -/
inductive IsMade : Price → Prop
  | ofDecimal (value : Decimal) : IsMade (.ofDecimal value)
  | ofText {text : String} {p : Price} (h : ofText? text = some p) : IsMade p
  | ofUInt64 (value : UInt64) : IsMade (.ofUInt64 value)
  | jittered {p q : Price} {bps : Int64} (h : p.jittered bps = .ok q) : IsMade q

theorem scale_ofDecimal_le (value : Decimal) : (ofDecimal value).amount.scale ≤ places := by
  rw [ofDecimal, Decimal.roundPlaces]
  split
  · assumption
  · exact Nat.le_refl _

theorem IsMade.scale_le {p : Price} (h : p.IsMade) : p.amount.scale ≤ places := by
  cases h with
  | ofDecimal value => exact scale_ofDecimal_le value
  | ofText h =>
    obtain ⟨value, -, rfl⟩ := Option.map_eq_some_iff.1 h
    exact scale_ofDecimal_le value
  | ofUInt64 value => exact scale_ofDecimal_le _
  | jittered h =>
    obtain ⟨_, product, -, -, rfl⟩ := exists_product_of_jittered h
    exact scale_ofDecimal_le product

theorem writesCents_text (p : Price) : WritesCents p.text.toList p.amount.cut :=
  p.amount.writesCents_fixed

theorem IsMade.writesCents_text {p : Price} (h : p.IsMade) :
    WritesCents p.text.toList p.amount.value := by
  rw [← p.amount.cut_eq_value h.scale_le]
  exact p.writesCents_text

end Price

end MarketLoad
