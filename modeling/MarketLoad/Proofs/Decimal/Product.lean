import Mathlib.Tactic.Ring
import MarketLoad.Decimal.Rounding

/-!
# Products of decimals

A product has no decimal exactly if it is too large when it is rounded to a whole number
(`Decimal.mul?_eq_none_iff`). One that fits keeps its digits (`Decimal.mul?_of_lt`), and one that does
not fit is large, however many digits it is cut by (`Decimal.le_signed_of_mul?`).
-/

namespace MarketLoad

theorem tenTo_add (j k : Nat) : tenTo (j + k) = tenTo j * tenTo k := Nat.pow_add ..

theorem tenTo_le {j k : Nat} (h : j ≤ k) : tenTo j ≤ tenTo k :=
  Nat.pow_le_pow_right (by decide) h

/-- A quotient is rounded up to an even number from half a unit below it on. -/
theorem le_roundHalfEven_iff {n d limit : Nat} (hd : 0 < d) (hlimit : 0 < limit)
    (heven : 2 ∣ limit) : limit ≤ roundHalfEven n d ↔ (2 * limit - 1) * d ≤ 2 * n := by
  unfold roundHalfEven
  have hdiv := Nat.div_add_mod n d
  have hmod := Nat.mod_lt n hd
  generalize n / d = q at hdiv
  generalize n % d = r at hdiv hmod
  subst hdiv
  dsimp only
  -- The remainder decides only one below the limit; there the quotient is odd, and a half goes up.
  obtain hfar | hnear | hpast := Nat.lt_trichotomy (q + 1) limit
  · have hle : 2 * (q + 1) * d ≤ (2 * limit - 1) * d := Nat.mul_le_mul_right _ (by omega)
    have hsplit : 2 * (q + 1) * d = 2 * (d * q) + 2 * d := by ring
    refine iff_of_false ?_ (by omega)
    split
    · omega
    · split
      · omega
      · omega
  · have hsplit : (2 * limit - 1) * d = 2 * (d * q) + d := by
      have hodd : 2 * limit - 1 = 2 * q + 1 := by omega
      rw [hodd]
      ring
    rw [hsplit]
    split
    · omega
    · split
      · omega
      · omega
  · have hle : (2 * limit - 1) * d ≤ 2 * q * d := Nat.mul_le_mul_right _ (by omega)
    have hsplit : 2 * q * d = 2 * (d * q) := by ring
    refine iff_of_true ?_ (by omega)
    split
    · omega
    · split
      · omega
      · omega

namespace Decimal

variable {a b d product : Decimal} {negative : Bool} {coefficient magnitude excess scale : Nat}

/-! ### Parts -/

theorem ofParts?_eq_none_iff (hscale : scale ≤ maxScale) :
    ofParts? negative coefficient scale = none ↔ coefficientLimit ≤ coefficient := by
  unfold ofParts?
  split
  · rename_i h
    exact iff_of_false nofun (Nat.not_le.2 h.1)
  · rename_i h
    exact iff_of_true rfl (Nat.le_of_not_lt fun hlt => h ⟨hlt, hscale⟩)

theorem exists_ofParts? (negative : Bool) (hcoefficient : coefficient < coefficientLimit)
    (hscale : scale ≤ maxScale) : ∃ d, ofParts? negative coefficient scale = some d :=
  ⟨_, dif_pos ⟨hcoefficient, hscale⟩⟩

theorem of_ofParts? (h : ofParts? negative coefficient scale = some d) :
    d.signed = (if negative then -(coefficient : Int) else coefficient) ∧
      d.coefficient = coefficient ∧ d.scale = scale := by
  unfold ofParts? at h
  split at h
  · cases h
    refine ⟨?_, rfl, rfl⟩
    by_cases hzero : coefficient = 0
    · simp [signed, hzero]
    · simp [signed, signOf, hzero]
  · cases h

theorem natAbs_signed (d : Decimal) : d.signed.natAbs = d.coefficient := by
  rw [signed]
  split
  · rw [Int.natAbs_neg, Int.natAbs_natCast]
  · rw [Int.natAbs_natCast]

/-! ### Products without a decimal -/

/-- A number with digits to cut has no decimal if it is too large without all of them. -/
theorem fitScale?_eq_none_iff (negative : Bool) (magnitude excess : Nat)
    (hscale : scale ≤ maxScale) :
    fitScale? negative magnitude excess scale = none ↔
      (2 * coefficientLimit - 1) * tenTo (excess + scale) ≤ 2 * magnitude := by
  have hround (excess : Nat) : coefficientLimit ≤ roundHalfEven magnitude (tenTo excess) ↔
      (2 * coefficientLimit - 1) * tenTo excess ≤ 2 * magnitude :=
    le_roundHalfEven_iff (tenTo_pos _) (by decide) (by decide)
  induction scale generalizing excess with
  | zero => rw [fitScale?, ofParts?_eq_none_iff (Nat.zero_le _), hround, Nat.add_zero]
  | succ scale ih =>
    have hrest := ih (excess + 1) (Nat.le_of_succ_le hscale)
    rw [Nat.add_right_comm, Nat.add_assoc] at hrest
    rw [fitScale?, Option.or_eq_none_iff, ofParts?_eq_none_iff hscale, hround]
    -- The last attempt cuts most, so all attempts before it fail with it.
    refine ⟨fun h => hrest.1 h.2, fun hlast => ⟨Nat.le_trans ?_ hlast, hrest.2 hlast⟩⟩
    exact Nat.mul_le_mul_left _ (tenTo_le (Nat.le_add_right ..))

/-- A product has no decimal if it is too large as a whole number. -/
theorem mul?_eq_none_iff (a b : Decimal) :
    a.mul? b = none ↔
      (2 * coefficientLimit - 1) * tenTo (a.scale + b.scale) ≤
        2 * (a.coefficient * b.coefficient) := by
  unfold mul?
  dsimp only
  split
  · rename_i hzero
    refine iff_of_false nofun ?_
    have hpos : 0 < (2 * coefficientLimit - 1) * tenTo (a.scale + b.scale) :=
      Nat.mul_pos (by decide) (tenTo_pos _)
    omega
  · have hscales : a.scale + b.scale - maxScale + min (a.scale + b.scale) maxScale =
        a.scale + b.scale := by omega
    rw [fitScale?_eq_none_iff _ _ _ (Nat.min_le_right ..), hscales]

/-! ### Products that fit -/

theorem roundHalfEven_one (n : Nat) : roundHalfEven n 1 = n := by
  rw [roundHalfEven, Nat.div_one, Nat.mod_one]
  rfl

/-- A number that fits keeps all its digits. -/
theorem fitScale?_of_lt (hfits : magnitude < coefficientLimit) (hscale : scale ≤ maxScale) :
    fitScale? negative magnitude 0 scale = ofParts? negative magnitude scale := by
  cases scale with
  | zero => rw [fitScale?, tenTo_zero, roundHalfEven_one]
  | succ scale =>
    obtain ⟨d, hd⟩ := exists_ofParts? negative hfits hscale
    rw [fitScale?, tenTo_zero, roundHalfEven_one, hd, Option.some_or]

theorem mul?_of_lt (hne : a.coefficient * b.coefficient ≠ 0)
    (hfits : a.coefficient * b.coefficient < coefficientLimit) (hscale : a.scale + b.scale ≤ maxScale) :
    a.mul? b =
      ofParts? (a.negative != b.negative) (a.coefficient * b.coefficient) (a.scale + b.scale) := by
  rw [mul?, if_neg hne, Nat.sub_eq_zero_of_le hscale, Nat.min_eq_left hscale,
    fitScale?_of_lt hfits hscale]

/-! ### Products that do not fit -/

/-- A number that is cut by one digit too few is large when it is cut by that digit too. -/
theorem le_roundHalfEven_of_le
    (hlarge : (2 * coefficientLimit - 1) * tenTo excess ≤ 2 * magnitude) :
    tenTo 20 ≤ roundHalfEven magnitude (tenTo (excess + 1)) := by
  rw [le_roundHalfEven_iff (tenTo_pos _) (by decide) (by decide), tenTo_succ]
  have hdigit : (2 * tenTo 20 - 1) * 10 ≤ 2 * coefficientLimit - 1 := by decide
  calc (2 * tenTo 20 - 1) * (tenTo excess * 10)
      = (2 * tenTo 20 - 1) * 10 * tenTo excess := by ring
    _ ≤ (2 * coefficientLimit - 1) * tenTo excess := Nat.mul_le_mul_right _ hdigit
    _ ≤ 2 * magnitude := hlarge

theorem le_signed_of_fitScale?
    (hlarge : (2 * coefficientLimit - 1) * tenTo excess ≤ 2 * magnitude)
    (hscale : scale ≤ maxScale) (h : fitScale? false magnitude (excess + 1) scale = some d) :
    (tenTo 20 : Int) ≤ d.signed ∧ d.scale ≤ scale := by
  induction scale generalizing excess with
  | zero =>
    obtain ⟨hsigned, -, hparts⟩ := of_ofParts? h
    rw [hsigned, if_neg Bool.false_ne_true]
    exact ⟨Int.ofNat_le.2 (le_roundHalfEven_of_le hlarge), hparts.le⟩
  | succ scale ih =>
    rw [fitScale?] at h
    rcases Option.or_eq_some_iff.1 h with h | ⟨hnone, h⟩
    · obtain ⟨hsigned, -, hparts⟩ := of_ofParts? h
      rw [hsigned, if_neg Bool.false_ne_true]
      exact ⟨Int.ofNat_le.2 (le_roundHalfEven_of_le hlarge), hparts.le⟩
    · rw [ofParts?_eq_none_iff hscale,
        le_roundHalfEven_iff (tenTo_pos _) (by decide) (by decide)] at hnone
      obtain ⟨hsigned, hle⟩ := ih hnone (Nat.le_of_succ_le hscale) h
      exact ⟨hsigned, Nat.le_succ_of_le hle⟩

/-- A product that does not fit is large, however many digits it is cut by. -/
theorem le_signed_of_mul? (ha : a.negative = false) (hb : b.negative = false)
    (hscale : a.scale + b.scale ≤ maxScale)
    (hlarge : coefficientLimit ≤ a.coefficient * b.coefficient) (h : a.mul? b = some product) :
    (tenTo 20 : Int) ≤ product.signed ∧ product.scale ≤ a.scale + b.scale := by
  have hne : a.coefficient * b.coefficient ≠ 0 :=
    Nat.ne_of_gt (Nat.lt_of_lt_of_le (by decide) hlarge)
  rw [mul?, if_neg hne, Nat.sub_eq_zero_of_le hscale, Nat.min_eq_left hscale, ha, hb,
    bne_self_eq_false] at h
  generalize a.coefficient * b.coefficient = magnitude at hlarge h
  have hfirst {k : Nat} (hk : k ≤ maxScale) :
      ofParts? false (roundHalfEven magnitude (tenTo 0)) k = none := by
    rw [tenTo_zero, roundHalfEven_one, ofParts?_eq_none_iff hk]
    exact hlarge
  generalize a.scale + b.scale = scale at hscale h
  cases scale with
  | zero =>
    rw [fitScale?, hfirst hscale] at h
    cases h
  | succ scale =>
    rw [fitScale?, hfirst hscale, Option.none_or] at h
    have hcut : (2 * coefficientLimit - 1) * tenTo 0 ≤ 2 * magnitude := by
      rw [tenTo_zero]
      omega
    obtain ⟨hsigned, hle⟩ := le_signed_of_fitScale? hcut (Nat.le_of_succ_le hscale) h
    exact ⟨hsigned, Nat.le_succ_of_le hle⟩

end Decimal

end MarketLoad
