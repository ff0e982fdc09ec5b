import Mathlib.Data.Rat.Floor
import Mathlib.Tactic.Linarith
import MarketLoad.Proofs.Cents

/-!
# Rounding to cents

A number has one multiple of a cent that is nearest to it, a half going away from zero
(`isNearestCents_iff`), and it is found in order (`toCents_le_toCents`). Rounding a decimal finds it
(`Decimal.value_roundPlaces_eq_toCents`).
-/

namespace MarketLoad

/-- The number of cents nearest to a number, a half going away from zero. -/
def nearestCents (x : ℚ) : ℤ := if 0 ≤ x then ⌊100 * x + 1 / 2⌋ else ⌈100 * x - 1 / 2⌉

/-- The multiple of a cent nearest to a number, a half going away from zero. -/
def toCents (x : ℚ) : ℚ := nearestCents x / 100

/-- No multiple of a cent is nearer to `x` than `y`, and one that is as near is nearer to zero. -/
structure IsNearestCents (x y : ℚ) : Prop where
  multiple : ∃ k : ℤ, y = k / 100
  nearest (k : ℤ) : |x - y| ≤ |x - k / 100|
  away (k : ℤ) : |x - k / 100| = |x - y| → |(k / 100 : ℚ)| ≤ |y|

variable {x y : ℚ}

theorem nearestCents_neg (x : ℚ) : nearestCents (-x) = -nearestCents x := by
  have hsplit : 100 * -x - 1 / 2 = -(100 * x + 1 / 2) := by ring
  have hsplit' : 100 * -x + 1 / 2 = -(100 * x - 1 / 2) := by ring
  rcases lt_trichotomy x 0 with hx | rfl | hx
  · rw [nearestCents, nearestCents, if_pos (by linarith), if_neg (by linarith), hsplit',
      Int.floor_neg]
  · norm_num [nearestCents]
  · rw [nearestCents, nearestCents, if_neg (by linarith), if_pos (by linarith), hsplit,
      Int.ceil_neg]

theorem toCents_neg (x : ℚ) : toCents (-x) = -toCents x := by
  rw [toCents, nearestCents_neg, Int.cast_neg, neg_div, toCents]

theorem nearestCents_nonneg (hx : 0 ≤ x) : 0 ≤ nearestCents x := by
  rw [nearestCents, if_pos hx]
  exact Int.floor_nonneg.2 (by linarith)

theorem toCents_nonneg (hx : 0 ≤ x) : 0 ≤ toCents x :=
  div_nonneg (Int.cast_nonneg (nearestCents_nonneg hx)) (by norm_num)

/-- Rounding keeps the order. -/
theorem toCents_le_toCents (h : x ≤ y) : toCents x ≤ toCents y := by
  have hcents : nearestCents x ≤ nearestCents y := by
    by_cases hx : 0 ≤ x
    · rw [nearestCents, nearestCents, if_pos hx, if_pos (hx.trans h)]
      exact Int.floor_le_floor (by linarith)
    · by_cases hy : 0 ≤ y
      · refine le_trans ?_ (nearestCents_nonneg hy)
        rw [nearestCents, if_neg hx]
        refine Int.ceil_le.2 ?_
        rw [Int.cast_zero]
        linarith
      · rw [nearestCents, nearestCents, if_neg hx, if_neg hy]
        exact Int.ceil_le_ceil (by linarith)
  exact div_le_div_of_nonneg_right (Int.cast_le.2 hcents) (by norm_num)

/-- Half a cent is the least number that is not rounded to zero. -/
theorem toCents_pos_iff (hx : 0 ≤ x) : 0 < toCents x ↔ 1 / 200 ≤ x := by
  rw [toCents, div_pos_iff_of_pos_right (by norm_num), Int.cast_pos, nearestCents, if_pos hx,
    Int.floor_pos]
  constructor
  · intro h
    linarith
  · intro h
    linarith

/-- Whole cents stay as they are. -/
theorem toCents_intCast_div (k : ℤ) : toCents (k / 100) = k / 100 := by
  have hhundred : 100 * ((k : ℚ) / 100) = k := mul_div_cancel₀ _ (by norm_num)
  have hcents : nearestCents (k / 100) = k := by
    rw [nearestCents, hhundred]
    split
    · rw [Int.floor_eq_iff]
      constructor
      · linarith
      · linarith
    · rw [Int.ceil_eq_iff]
      constructor
      · linarith
      · linarith
  rw [toCents, hcents]

/-- A quotient is rounded to cents as it is rounded in whole numbers. -/
theorem toCents_natCast_div (n : ℕ) {d : ℕ} (hd : 0 < d) :
    toCents (n / (d * 100)) = roundHalfUp n d / 100 := by
  have hd' : (0 : ℚ) < d := Nat.cast_pos.2 hd
  have hquotient : 100 * ((n : ℚ) / (d * 100)) + 1 / 2 =
      ((2 * n + d : ℕ) : ℚ) / ((2 * d : ℕ) : ℚ) := by
    push_cast
    field_simp
  have hnonneg : (0 : ℚ) ≤ n / (d * 100) := by positivity
  rw [toCents, nearestCents, if_pos hnonneg, hquotient, Rat.floor_natCast_div_natCast, roundHalfUp,
    ← Int.natCast_ediv, Int.cast_natCast]

/-! ### The nearest multiple -/

theorem abs_sub_div_hundred (x : ℚ) (k : ℤ) : |x - k / 100| = |100 * x - k| / 100 := by
  have hsplit : x - k / 100 = (100 * x - k) / 100 := by ring
  rw [hsplit, abs_div, abs_of_pos (by norm_num : (0 : ℚ) < 100)]

theorem IsNearestCents.neg (h : IsNearestCents x y) : IsNearestCents (-x) (-y) := by
  have hcross (z : ℚ) : |-x - z| = |x - -z| := by
    rw [← abs_neg, neg_sub_left, neg_neg, add_comm, sub_neg_eq_add]
  have hneg (k : ℤ) : -((k : ℚ) / 100) = (-k : ℤ) / 100 := by
    rw [Int.cast_neg, neg_div]
  obtain ⟨k, rfl⟩ := h.multiple
  refine ⟨⟨-k, hneg k⟩, fun j => ?_, fun j => ?_⟩
  · rw [hcross, hcross, neg_neg, hneg]
    exact h.nearest (-j)
  · rw [hcross, hcross, neg_neg, hneg, abs_neg, ← abs_neg ((j : ℚ) / 100), hneg]
    exact h.away (-j)

/-- The nearest number of cents is half a cent off at most, and less than that below the number. -/
theorem nearestCents_bounds (hx : 0 ≤ x) :
    (nearestCents x : ℚ) ≤ 100 * x + 1 / 2 ∧ 100 * x + 1 / 2 < nearestCents x + 1 := by
  rw [nearestCents, if_pos hx]
  exact ⟨Int.floor_le _, Int.lt_floor_add_one _⟩

theorem half_le_abs_sub (hx : 0 ≤ x) {k : ℤ} (hk : k < nearestCents x) :
    1 / 2 ≤ |100 * x - k| := by
  have hle := (nearestCents_bounds hx).1
  have hcast : (k : ℚ) + 1 ≤ nearestCents x := by exact_mod_cast hk
  exact le_trans (by linarith) (le_abs_self _)

theorem half_lt_abs_sub (hx : 0 ≤ x) {k : ℤ} (hk : nearestCents x < k) :
    1 / 2 < |100 * x - k| := by
  have hlt := (nearestCents_bounds hx).2
  have hcast : (nearestCents x : ℚ) + 1 ≤ k := by exact_mod_cast hk
  exact lt_of_lt_of_le (by linarith) (neg_le_abs _)

theorem abs_sub_nearestCents_le (hx : 0 ≤ x) : |100 * x - nearestCents x| ≤ 1 / 2 := by
  obtain ⟨hle, hlt⟩ := nearestCents_bounds hx
  rw [abs_le]
  constructor
  · linarith
  · linarith

theorem isNearestCents_toCents (x : ℚ) : IsNearestCents x (toCents x) := by
  -- What holds above zero holds below it, the signs turned round.
  wlog hx : 0 ≤ x generalizing x with habove
  · have hneg := (habove (-x) (by linarith)).neg
    rwa [toCents_neg, neg_neg, neg_neg] at hneg
  have hhalf := abs_sub_nearestCents_le hx
  have hzero := nearestCents_nonneg hx
  refine ⟨⟨_, rfl⟩, fun k => ?_, fun k => ?_⟩
  · rw [toCents, abs_sub_div_hundred, abs_sub_div_hundred]
    refine div_le_div_of_nonneg_right ?_ (by norm_num)
    rcases lt_trichotomy k (nearestCents x) with hk | rfl | hk
    · exact hhalf.trans (half_le_abs_sub hx hk)
    · exact le_refl _
    · exact hhalf.trans (half_lt_abs_sub hx hk).le
  · rw [toCents, abs_sub_div_hundred, abs_sub_div_hundred, div_left_inj' (by norm_num)]
    intro hsame
    have hle : k ≤ nearestCents x := by
      by_contra hk
      have hfar := half_lt_abs_sub hx (lt_of_not_ge hk)
      linarith
    have hge : -nearestCents x ≤ k := by
      by_contra hk
      have hcast : (k : ℚ) + 1 ≤ -nearestCents x := by
        have hstep : k + 1 ≤ -nearestCents x := by omega
        exact_mod_cast hstep
      have hcents : (0 : ℚ) ≤ nearestCents x := Int.cast_nonneg hzero
      have hfar := le_abs_self (100 * x - k)
      linarith
    rw [abs_div, abs_div]
    refine div_le_div_of_nonneg_right ?_ (abs_nonneg _)
    rw [← Int.cast_abs, ← Int.cast_abs, Int.cast_le, abs_of_nonneg hzero, abs_le]
    exact ⟨hge, hle⟩

/-- There is one nearest multiple only. -/
theorem isNearestCents_iff : IsNearestCents x y ↔ y = toCents x := by
  refine ⟨fun h => ?_, fun h => h ▸ isNearestCents_toCents x⟩
  have h' := isNearestCents_toCents x
  obtain ⟨k, rfl⟩ := h.multiple
  have hnear : |x - k / 100| = |x - toCents x| := le_antisymm (h.nearest _) (h'.nearest k)
  have hsize : |(k / 100 : ℚ)| = |toCents x| := le_antisymm (h'.away k hnear) (h.away _ hnear.symm)
  rcases abs_eq_abs.1 hsize with heq | hneg
  · exact heq
  · -- Two opposite numbers are as near to zero only, which is a multiple itself.
    rw [hneg, sub_neg_eq_add] at hnear
    rcases abs_eq_abs.1 hnear with hsame | hsame
    · linarith
    · have hx : x = 0 := by linarith
      subst hx
      have hzero : toCents 0 = 0 := by norm_num [toCents, nearestCents]
      rw [hneg, hzero, neg_zero]

/-! ### Decimals -/

namespace Decimal

variable {d : Decimal}

theorem value_pos_iff : 0 < d.value ↔ 0 < d.signed := by
  have hpos : (0 : ℚ) < tenTo d.scale := Nat.cast_pos.2 (tenTo_pos _)
  rw [value, div_pos_iff_of_pos_right hpos, Int.cast_pos]

theorem isPositive_iff : d.isPositive = true ↔ 0 < d.value := by
  rw [isPositive, decide_eq_true_iff, value_pos_iff]

theorem toCents_sign_mul (d : Decimal) (x : ℚ) : toCents (d.sign * x) = d.sign * toCents x := by
  rw [sign]
  split
  · rw [neg_one_mul, neg_one_mul, toCents_neg]
  · rw [one_mul, one_mul]

/-- Up to two fraction digits are whole cents. -/
theorem toCents_value (h : d.scale ≤ 2) : toCents d.value = d.value := by
  have hcents := toCents_intCast_div d.cents
  rw [Int.cast_natCast] at hcents
  rw [← d.cut_eq_value h, cut, toCents_sign_mul, hcents]

/-- Rounding a decimal is rounding its number. -/
theorem value_roundPlaces_eq_toCents (d : Decimal) : (d.roundPlaces 2).value = toCents d.value := by
  by_cases h : d.scale ≤ 2
  · have hround : d.roundPlaces 2 = d := dif_pos h
    rw [hround, toCents_value h]
  · have hsplit : (tenTo d.scale : ℚ) = tenTo (d.scale - 2) * 100 := by
      have hnat : tenTo d.scale = tenTo (d.scale - 2) * tenTo 2 := by
        rw [← tenTo_add, Nat.sub_add_cancel (by omega)]
      exact_mod_cast hnat
    rw [d.value_roundPlaces h, d.value_eq, toCents_sign_mul, hsplit,
      toCents_natCast_div _ (tenTo_pos _)]
    rfl

end Decimal

end MarketLoad
