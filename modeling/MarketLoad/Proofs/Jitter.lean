import MarketLoad.Proofs.Decimal.Nearest

/-!
# Moving prices

A product of decimals that fits is exact (`Decimal.exists_mul?`), so a price that basis points move
is rounded once, from the exact number that they move it to (`Price.exists_jittered`), and prices are
moved in order (`Price.cents_exact`). A product that does not fit is far above all small numbers
(`Decimal.le_signed_of_mul?`), so a price that is moved stays above zero exactly from half a cent on
(`Price.isPositive_jittered_iff`).
-/

namespace MarketLoad

namespace Decimal

variable {a b d product : Decimal} {negative : Bool} {coefficient scale : Nat}

/-! ### Products as numbers -/

theorem value_of_ofParts? (h : ofParts? negative coefficient scale = some d) :
    d.value = (if negative then -1 else 1) * (coefficient / tenTo scale) := by
  obtain ⟨hsigned, -, hscale⟩ := of_ofParts? h
  rw [value, hsigned, hscale]
  cases negative <;> simp [neg_div]

theorem sign_mul_sign (a b : Decimal) :
    (if (a.negative != b.negative) = true then -1 else 1) = a.sign * b.sign := by
  rw [sign, sign]
  cases a.negative <;> cases b.negative <;> norm_num

theorem value_mul (a b : Decimal) : a.value * b.value = a.sign * b.sign *
    (((a.coefficient * b.coefficient : Nat) : ℚ) / tenTo (a.scale + b.scale)) := by
  rw [a.value_eq, b.value_eq, tenTo_add, Nat.cast_mul, Nat.cast_mul, mul_mul_mul_comm,
    div_mul_div_comm]

/-- A product that fits is exact. -/
theorem exists_mul? (hfits : a.coefficient * b.coefficient < coefficientLimit)
    (hscale : a.scale + b.scale ≤ maxScale) :
    ∃ product, a.mul? b = some product ∧ product.value = a.value * b.value := by
  rw [value_mul]
  by_cases hzero : a.coefficient * b.coefficient = 0
  · refine ⟨zero, if_pos hzero, ?_⟩
    rw [hzero]
    simp [value, signed, zero]
  · obtain ⟨product, hproduct⟩ := exists_ofParts? (a.negative != b.negative) hfits hscale
    refine ⟨product, (mul?_of_lt hzero hfits hscale).trans hproduct, ?_⟩
    rw [value_of_ofParts? hproduct, sign_mul_sign]

/-- One without fraction digits. -/
def one : Decimal := ofUInt64 1

theorem plain_of_ne_zero (h : d.coefficient ≠ 0) : d.plain = d := by
  have hsign : signOf d.negative d.coefficient = d.negative := by simp [signOf, h]
  rw [plain, hsign]

/-- A product with one keeps its digits, unless it is zero. -/
theorem mul?_one (h : d.coefficient ≠ 0) : d.mul? one = some d := by
  have hproduct : d.coefficient * one.coefficient = d.coefficient := Nat.mul_one _
  have hscale : d.scale + one.scale = d.scale := Nat.add_zero _
  have hsign : (d.negative != one.negative) = d.negative := Bool.bne_false _
  have hmul := mul?_of_lt (hproduct.trans_ne h) (hproduct.trans_lt d.coefficient_lt)
    (hscale.trans_le d.scale_le)
  rw [hmul, hproduct, hscale, hsign, ofParts?_self, plain_of_ne_zero h]

theorem negative_of_signed_pos (h : 0 < d.signed) : d.negative = false := by
  rw [signed] at h
  cases hneg : d.negative with
  | false => rfl
  | true =>
    rw [hneg, if_pos rfl] at h
    omega

theorem sign_of_not_negative (h : d.negative = false) : d.sign = 1 := by
  rw [sign, h, if_neg Bool.false_ne_true]

/-- With at most six fraction digits a large number is above half a cent. -/
theorem half_cent_le {n : ℚ} (hn : (tenTo 20 : ℚ) ≤ n) (hscale : scale ≤ 6) :
    1 / 200 ≤ n / tenTo scale := by
  have hpos : (0 : ℚ) < tenTo scale := Nat.cast_pos.2 (tenTo_pos _)
  have hle : (tenTo scale : ℚ) ≤ tenTo 6 := Nat.cast_le.2 (tenTo_le hscale)
  have hsix : (tenTo 6 : ℚ) ≤ tenTo 20 := Nat.cast_le.2 (tenTo_le (by decide))
  rw [le_div_iff₀ hpos]
  linarith

/-- With at most six fraction digits the product of two positive numbers is not negative, and half a
cent or more exactly if the exact product is. -/
theorem half_cent_le_mul?_iff (ha : 0 < a.signed) (hb : 0 < b.signed) (hscale : a.scale + b.scale ≤ 6)
    (h : a.mul? b = some product) :
    0 ≤ product.value ∧ (1 / 200 ≤ product.value ↔ 1 / 200 ≤ a.value * b.value) := by
  have hmax : a.scale + b.scale ≤ maxScale := Nat.le_trans hscale (by decide)
  rcases Nat.lt_or_ge (a.coefficient * b.coefficient) coefficientLimit with hfits | hlarge
  · obtain ⟨product', hproduct, hexact⟩ := exists_mul? hfits hmax
    cases h.symm.trans hproduct
    rw [hexact]
    exact ⟨(mul_pos (value_pos_iff.2 ha) (value_pos_iff.2 hb)).le, Iff.rfl⟩
  · -- Such a product is rounded before it is rounded to cents, but far above half a cent.
    have ha' := negative_of_signed_pos ha
    have hb' := negative_of_signed_pos hb
    obtain ⟨hsigned, hle⟩ := le_signed_of_mul? ha' hb' hmax hlarge h
    have hproduct : 1 / 200 ≤ product.value :=
      half_cent_le (by exact_mod_cast hsigned) (Nat.le_trans hle hscale)
    have hexact : 1 / 200 ≤ a.value * b.value := by
      rw [value_mul, sign_of_not_negative ha', sign_of_not_negative hb', one_mul, one_mul]
      exact half_cent_le (Nat.cast_le.2 (Nat.le_trans (by decide) hlarge)) hscale
    exact ⟨by linarith, iff_of_true hproduct hexact⟩

end Decimal

/-! ### Prices -/

namespace Price

variable {p p' q q' : Price} {bps bps' : Int64}

theorem value_ofDecimal (v : Decimal) : (ofDecimal v).amount.value = toCents v.value :=
  v.value_roundPlaces_eq_toCents

theorem ofDecimal_of_le {v : Decimal} (h : v.scale ≤ places) : ofDecimal v = ⟨v⟩ := by
  rw [ofDecimal, Decimal.roundPlaces, dif_pos h]

/-- A price that is made again from its number stays as it is. -/
theorem ofDecimal_amount (v : Decimal) : ofDecimal (ofDecimal v).amount = ofDecimal v :=
  ofDecimal_of_le (scale_ofDecimal_le v)

/-- The exact number that basis points move a price to. -/
def moved (p : Price) (bps : Int) : ℚ := p.amount.value * (10000 + bps) / 10000

theorem moved_le_moved {bps bps' : Int} (hp : 0 ≤ p.amount.value)
    (hpp : p.amount.value ≤ p'.amount.value) (hlow : -10000 ≤ bps) (hle : bps ≤ bps') :
    p.moved bps ≤ p'.moved bps' := by
  have hlow' : (0 : ℚ) ≤ 10000 + bps := by exact_mod_cast (show (0 : Int) ≤ 10000 + bps by omega)
  have hle' : (10000 + bps : ℚ) ≤ 10000 + bps' := by exact_mod_cast Int.add_le_add_left hle 10000
  refine div_le_div_of_nonneg_right ?_ (by norm_num)
  exact mul_le_mul hpp hle' hlow' (hp.trans hpp)

theorem value_mul_factor {factor : Decimal} {bps : Int} (h : factor.value = (10000 + bps) / 10000)
    (p : Price) : p.amount.value * factor.value = p.moved bps := by
  rw [moved, h, mul_div_assoc]

/-- The factor of basis points, and the number it stands for. -/
theorem exists_factor (h : wholeBps + bps.toInt ≤ Int64.maxValue.toInt) :
    ∃ factor, jitterFactor bps = .ok factor ∧ factor.scale ≤ 4 ∧
      factor.coefficient ≤ (wholeBps + bps.toInt).natAbs ∧
      (0 < factor.signed ↔ 0 < wholeBps + bps.toInt) ∧
      factor.value = (10000 + bps.toInt) / 10000 := by
  obtain ⟨factor, hfactor, hscale, hsigned⟩ := exists_jitterFactor h
  have hpos : 0 < tenTo (4 - factor.scale) := tenTo_pos _
  refine ⟨factor, hfactor, hscale, ?_, ?_, ?_⟩
  · rw [← hsigned, Int.natAbs_mul, Decimal.natAbs_signed, Int.natAbs_natCast]
    exact Nat.le_mul_of_pos_right _ hpos
  · rw [← hsigned, mul_pos_iff_of_pos_right (Int.natCast_pos.2 hpos)]
  · have hsplit : (tenTo factor.scale : ℚ) * tenTo (4 - factor.scale) = 10000 := by
      have hnat : tenTo factor.scale * tenTo (4 - factor.scale) = 10000 := by
        rw [← tenTo_add, Nat.add_sub_cancel' hscale]
        rfl
      exact_mod_cast hnat
    have hparts : (factor.signed : ℚ) * tenTo (4 - factor.scale) = 10000 + bps.toInt := by
      have hwhole : ((wholeBps : Int) : ℚ) = 10000 := by norm_num [wholeBps]
      rw [← hwhole]
      exact_mod_cast hsigned
    rw [← hparts, ← hsplit, mul_div_mul_right _ _ (tenTo_ne_zero _)]
    rfl

/-- The basis points make a factor, and the product of the coefficients fits. -/
structure MovesExactly (p : Price) (bps : Int64) : Prop where
  sum : wholeBps + bps.toInt ≤ Int64.maxValue.toInt
  scale : p.amount.scale + 4 ≤ Decimal.maxScale
  fits : p.amount.coefficient * (wholeBps + bps.toInt).natAbs < Decimal.coefficientLimit

/-- A price is rounded once when it is moved. -/
theorem exists_jittered (h : p.MovesExactly bps) :
    ∃ q, p.jittered bps = .ok q ∧ q.amount.value = toCents (p.moved bps.toInt) := by
  obtain ⟨factor, hfactor, hscale, hcoefficient, -, hvalue⟩ := exists_factor h.sum
  have hfits : p.amount.coefficient * factor.coefficient < Decimal.coefficientLimit :=
    Nat.lt_of_le_of_lt (Nat.mul_le_mul_left _ hcoefficient) h.fits
  have hmax : p.amount.scale + factor.scale ≤ Decimal.maxScale :=
    Nat.le_trans (Nat.add_le_add_left hscale _) h.scale
  obtain ⟨product, hproduct, hexact⟩ := Decimal.exists_mul? hfits hmax
  refine ⟨ofDecimal product, ?_, ?_⟩
  · rw [jittered_of_factor hfactor, hproduct, Option.elim_some]
  · rw [value_ofDecimal, hexact, value_mul_factor hvalue]

/-- Prices that are not below zero are moved in order. -/
theorem jittered_le_jittered (h : p.MovesExactly bps) (h' : p'.MovesExactly bps')
    (hp : 0 ≤ p.amount.value) (hpp : p.amount.value ≤ p'.amount.value)
    (hlow : -10000 ≤ bps.toInt) (hle : bps ≤ bps') (hq : p.jittered bps = .ok q)
    (hq' : p'.jittered bps' = .ok q') : q.amount.value ≤ q'.amount.value := by
  obtain ⟨_, hjittered, hvalue⟩ := exists_jittered h
  obtain ⟨_, hjittered', hvalue'⟩ := exists_jittered h'
  cases hjittered.symm.trans hq
  cases hjittered'.symm.trans hq'
  rw [hvalue, hvalue']
  exact toCents_le_toCents (moved_le_moved hp hpp hlow (Int64.le_iff_toInt_le.1 hle))

/-- Moved by nothing, a price with up to two fraction digits keeps its number, and its digits unless it
is zero. -/
theorem jittered_zero (hscale : p.amount.scale ≤ places) :
    ∃ q, p.jittered 0 = .ok q ∧ q.amount.value = p.amount.value ∧
      (p.amount.coefficient ≠ 0 → q = p) := by
  have hfactor : jitterFactor 0 = .ok Decimal.one := rfl
  rw [jittered_of_factor hfactor]
  by_cases hzero : p.amount.coefficient = 0
  · have hproduct : p.amount.mul? Decimal.one = some Decimal.zero :=
      if_pos (Nat.mul_eq_zero.2 (.inl hzero))
    have hvalue : p.amount.value = Decimal.zero.value := by
      simp [Decimal.value_eq, hzero, Decimal.zero]
    rw [hproduct]
    refine ⟨_, rfl, ?_, fun hne => absurd hzero hne⟩
    rw [ofDecimal_of_le (Nat.zero_le _), hvalue]
  · rw [Decimal.mul?_one hzero]
    refine ⟨_, rfl, ?_, fun _ => ofDecimal_of_le hscale⟩
    rw [ofDecimal_of_le hscale]

/-- A price above zero is not moved below zero, and stays above it exactly if it is moved to half a
cent or more. -/
theorem isPositive_jittered_iff (hp : p.isPositive = true) (hscale : p.amount.scale ≤ places)
    (hlow : -wholeBps < bps.toInt) (hsum : wholeBps + bps.toInt ≤ Int64.maxValue.toInt)
    (h : p.jittered bps = .ok q) :
    0 ≤ q.amount.value ∧ (q.isPositive = true ↔ 1 / 200 ≤ p.moved bps.toInt) := by
  obtain ⟨factor, hfactor, hfactorScale, -, hpos, hvalue⟩ := exists_factor hsum
  have hp' : 0 < p.amount.signed := of_decide_eq_true hp
  have hfactorPos : 0 < factor.signed := hpos.2 (by omega)
  have hsix : p.amount.scale + factor.scale ≤ 6 := Nat.add_le_add hscale hfactorScale
  obtain ⟨_, product, hfactor', hproduct, rfl⟩ := exists_product_of_jittered h
  cases hfactor.symm.trans hfactor'
  obtain ⟨hzero, hhalf⟩ := Decimal.half_cent_le_mul?_iff hp' hfactorPos hsix hproduct
  rw [value_ofDecimal, isPositive, Decimal.isPositive_iff, value_ofDecimal, toCents_pos_iff hzero,
    hhalf, value_mul_factor hvalue]
  exact ⟨toCents_nonneg hzero, Iff.rfl⟩

/-- A price made from a number is the multiple of a cent nearest to it, and the number itself if that
has up to two fraction digits. So it is made again from its own number, and prices are made in order.
A price that is moved is rounded so once, from the exact number. So prices that are not below zero are
moved in order, and a price that is moved by nothing stays where it is. -/
theorem cents_exact :
    (∀ v : Decimal, IsNearestCents v.value (ofDecimal v).amount.value ∧
      (v.scale ≤ places → ofDecimal v = ⟨v⟩) ∧ ofDecimal (ofDecimal v).amount = ofDecimal v ∧
      ∀ v' : Decimal, v.value ≤ v'.value →
        (ofDecimal v).amount.value ≤ (ofDecimal v').amount.value) ∧
    (∀ (p : Price) (bps : Int64), p.MovesExactly bps → ∃ q, p.jittered bps = .ok q ∧
      IsNearestCents (p.amount.value * (10000 + bps.toInt) / 10000) q.amount.value) ∧
    (∀ (p p' q q' : Price) (bps bps' : Int64), p.MovesExactly bps → p'.MovesExactly bps' →
      0 ≤ p.amount.value → p.amount.value ≤ p'.amount.value → -10000 ≤ bps.toInt → bps ≤ bps' →
      p.jittered bps = .ok q → p'.jittered bps' = .ok q' → q.amount.value ≤ q'.amount.value) ∧
    ∀ p : Price, p.amount.scale ≤ places → ∃ q, p.jittered 0 = .ok q ∧
      q.amount.value = p.amount.value ∧ (p.amount.coefficient ≠ 0 → q = p) := by
  refine ⟨fun v => ⟨isNearestCents_iff.2 (value_ofDecimal v), ofDecimal_of_le, ofDecimal_amount v,
    fun v' hle => ?_⟩, fun p bps h => ?_, fun _ _ _ _ _ _ => jittered_le_jittered,
    fun p => jittered_zero⟩
  · rw [value_ofDecimal, value_ofDecimal]
    exact toCents_le_toCents hle
  · obtain ⟨q, hq, hvalue⟩ := exists_jittered h
    exact ⟨q, hq, isNearestCents_iff.2 hvalue⟩

/-- The number -1.005 is halfway between two cents. So is a cent that is moved up by half of it, and by
half of it down it is rounded up to itself; no offset in between moves it further. -/
theorem cents_exact_halves :
    let v : Decimal := ⟨true, 1005, 3, by decide, by decide⟩
    let cent : Price := ⟨⟨false, 1, 2, by decide, by decide⟩⟩
    let twoCents : Price := ⟨⟨false, 2, 2, by decide, by decide⟩⟩
    IsNearestCents v.value (-101 / 100) ∧ ofDecimal cent.amount = cent ∧
      cent.MovesExactly (-5000) ∧ cent.MovesExactly 5000 ∧ cent.jittered (-5000) = .ok cent ∧
      cent.jittered 5000 = .ok twoCents ∧ IsNearestCents (3 / 200) (1 / 50) ∧
      (∀ bps q, cent.MovesExactly bps → -5000 ≤ bps → bps ≤ 5000 → cent.jittered bps = .ok q →
        1 / 100 ≤ q.amount.value ∧ q.amount.value ≤ 1 / 50) ∧
      cent.jittered 0 = .ok cent := by
  intro v cent twoCents
  obtain ⟨hround, hexact, horder, hzero⟩ := cents_exact
  have hv : (ofDecimal v).amount.value = -101 / 100 := by decide +kernel
  have hcent : cent.amount.value = 1 / 100 := by decide +kernel
  have htwo : twoCents.amount.value = 1 / 50 := by decide +kernel
  have hdown : cent.MovesExactly (-5000) := ⟨by decide, by decide, by decide⟩
  have hup : cent.MovesExactly 5000 := ⟨by decide, by decide, by decide⟩
  have hdown' : cent.jittered (-5000) = .ok cent := by decide +kernel
  have hup' : cent.jittered 5000 = .ok twoCents := by decide +kernel
  have hlow : 0 ≤ cent.amount.value := by rw [hcent]; norm_num
  refine ⟨hv ▸ (hround v).1, (hround cent.amount).2.1 (by decide), hdown, hup, hdown', hup', ?_,
    fun bps q hmoves hle hle' hq => ⟨?_, ?_⟩, ?_⟩
  · obtain ⟨q, hq, hnearest⟩ := hexact cent 5000 hup
    cases hup'.symm.trans hq
    have hmoved : cent.amount.value * (10000 + (5000 : Int64).toInt) / 10000 = 3 / 200 := by
      decide +kernel
    rwa [hmoved, htwo] at hnearest
  · rw [← hcent]
    exact horder cent cent cent q (-5000) bps hdown hmoves hlow le_rfl (by decide) hle hdown' hq
  · rw [← htwo]
    have hbps : -10000 ≤ bps.toInt :=
      le_trans (by decide) (Int64.le_iff_toInt_le.1 hle)
    exact horder cent cent q twoCents bps 5000 hmoves hup hlow le_rfl hbps hle' hq hup'
  · obtain ⟨q, hq, -, hsame⟩ := hzero cent (by decide)
    rw [hq, hsame (by decide)]

end Price

end MarketLoad
