import MarketLoad.Price
import MarketLoad.Proofs.Decimal.Product

/-!
# Prices that cannot be moved

Basis points make an exact factor (`Price.exists_jitterFactor`), so a price can be moved unless so
many ten-thousandths of it are too large for a decimal (`Price.jittered_eq_error_iff`).
-/

namespace MarketLoad

namespace Price

theorem factorScale_le (parts : Nat) : factorScale parts ≤ 4 := by
  unfold factorScale
  repeat' split
  all_goals decide

/-- No digit of a factor is lost. -/
theorem dvd_of_factorScale (parts : Nat) : tenTo (4 - factorScale parts) ∣ parts := by
  unfold factorScale
  split
  · exact Nat.dvd_of_mod_eq_zero ‹_›
  · split
    · rename_i h
      exact Nat.dvd_of_mod_eq_zero h.1
    · split
      · exact Nat.dvd_of_mod_eq_zero ‹_›
      · split
        · exact Nat.dvd_of_mod_eq_zero ‹_›
        · exact Nat.one_dvd _

/-- Basis points make a factor if the sum with the whole keeps its range, and it is exact. -/
theorem exists_jitterFactor {bps : Int64} (h : wholeBps + bps.toInt ≤ Int64.maxValue.toInt) :
    ∃ factor, jitterFactor bps = .ok factor ∧ factor.scale ≤ 4 ∧
      factor.signed * tenTo (4 - factor.scale) = wholeBps + bps.toInt := by
  have hwhole : wholeBps = 10000 := rfl
  have hmax : Int64.maxValue.toInt = 9223372036854775807 := rfl
  have hlow := bps.le_toInt
  have hparts : (wholeBps + bps.toInt).natAbs ≤ 9223372036854775808 := by omega
  unfold jitterFactor
  dsimp only
  rw [if_pos h]
  generalize (wholeBps : Int) + bps.toInt = sum at hparts
  have hcoefficient : sum.natAbs / tenTo (4 - factorScale sum.natAbs) < Decimal.coefficientLimit :=
    Nat.lt_of_le_of_lt (Nat.le_trans (Nat.div_le_self ..) hparts) (by decide)
  have hscale : factorScale sum.natAbs ≤ Decimal.maxScale :=
    Nat.le_trans (factorScale_le _) (by decide)
  obtain ⟨factor, hfactor⟩ := Decimal.exists_ofParts? (sum < 0) hcoefficient hscale
  obtain ⟨hsigned, -, hfactorScale⟩ := Decimal.of_ofParts? hfactor
  have hexact : ((sum.natAbs / tenTo (4 - factorScale sum.natAbs) : Nat) : Int) *
      tenTo (4 - factorScale sum.natAbs) = sum.natAbs := by
    rw [← Int.natCast_mul, Nat.div_mul_cancel (dvd_of_factorScale _)]
  rw [hfactor]
  refine ⟨factor, rfl, hfactorScale ▸ factorScale_le _, ?_⟩
  rw [hsigned, hfactorScale]
  split
  · rename_i hneg
    rw [Int.neg_mul, hexact]
    have hneg' := of_decide_eq_true hneg
    omega
  · rename_i hneg
    rw [hexact]
    have hneg' := of_decide_eq_false (Bool.eq_false_of_not_eq_true hneg)
    omega

/-- A price is moved by one multiplication. -/
theorem jittered_of_factor {bps : Int64} {factor : Decimal} (h : jitterFactor bps = .ok factor)
    (p : Price) : p.jittered bps =
      (p.amount.mul? factor).elim (.error .productOverflow) fun product => .ok (ofDecimal product) := by
  rw [jittered, h]
  dsimp only [bind, Except.bind]
  cases p.amount.mul? factor with
  | none => rfl
  | some product => rfl

theorem exists_product_of_jittered {p q : Price} {bps : Int64} (h : p.jittered bps = .ok q) :
    ∃ factor product, jitterFactor bps = .ok factor ∧ p.amount.mul? factor = some product ∧
      q = ofDecimal product := by
  cases hfactor : jitterFactor bps with
  | error fault =>
    rw [jittered, hfactor] at h
    cases h
  | ok factor =>
    rw [jittered_of_factor hfactor] at h
    cases hproduct : p.amount.mul? factor with
    | none =>
      rw [hproduct] at h
      cases h
    | some product =>
      rw [hproduct] at h
      cases h
      exact ⟨factor, product, rfl, hproduct, rfl⟩

/-- So many ten-thousandths of a price, rounded to a whole number, are past every decimal. -/
def Overflows (p : Price) (parts : Nat) : Prop :=
  (2 * Decimal.coefficientLimit - 1) * tenTo (p.amount.scale + 4) ≤
    2 * (p.amount.coefficient * parts)

instance (p : Price) (parts : Nat) : Decidable (p.Overflows parts) :=
  inferInstanceAs (Decidable (_ ≤ _))

theorem Overflows.mono {p : Price} {parts parts' : Nat} (h : p.Overflows parts)
    (hle : parts ≤ parts') : p.Overflows parts' :=
  Nat.le_trans h (Nat.mul_le_mul_left _ (Nat.mul_le_mul_left _ hle))

/-- A price cannot be moved exactly if the price it would be moved to is past every decimal. -/
theorem jittered_eq_error_iff (p : Price) {bps : Int64} (h : bps.toInt.natAbs ≤ wholeBps)
    (fault : Fault) :
    p.jittered bps = .error fault ↔
      fault = .productOverflow ∧ p.Overflows (wholeBps + bps.toInt).natAbs := by
  have hwhole : wholeBps = 10000 := rfl
  have hmax : Int64.maxValue.toInt = 9223372036854775807 := rfl
  have hsum : wholeBps + bps.toInt ≤ Int64.maxValue.toInt := by omega
  obtain ⟨factor, hfactor, hscale, hsigned⟩ := exists_jitterFactor hsum
  have hexact : factor.coefficient * tenTo (4 - factor.scale) = (wholeBps + bps.toInt).natAbs := by
    rw [← hsigned, Int.natAbs_mul, Decimal.natAbs_signed, Int.natAbs_natCast]
  have hnone : p.amount.mul? factor = none ↔ p.Overflows (wholeBps + bps.toInt).natAbs := by
    have hsplit : tenTo (p.amount.scale + 4) =
        tenTo (p.amount.scale + factor.scale) * tenTo (4 - factor.scale) := by
      rw [← tenTo_add]
      congr 1
      omega
    have hproduct : 2 * (p.amount.coefficient * (wholeBps + bps.toInt).natAbs) =
        2 * (p.amount.coefficient * factor.coefficient) * tenTo (4 - factor.scale) := by
      rw [← hexact]
      ring
    rw [Decimal.mul?_eq_none_iff, Overflows, hproduct, hsplit,
      ← Nat.mul_assoc (2 * Decimal.coefficientLimit - 1)]
    exact (Nat.mul_le_mul_right_iff (tenTo_pos _)).symm
  rw [← hnone, jittered_of_factor hfactor]
  cases p.amount.mul? factor with
  | none =>
    constructor
    · intro hfault
      cases hfault
      exact ⟨rfl, rfl⟩
    · rintro ⟨rfl, -⟩
      rfl
  | some product =>
    refine iff_of_false (fun hfault => ?_) (fun hover => ?_)
    · cases hfault
    · cases hover.2

end Price

end MarketLoad
