import Mathlib.Algebra.Order.Field.Rat
import Mathlib.Data.Rat.Cast.Order
import Mathlib.Tactic.FieldSimp
import Mathlib.Tactic.NormNum
import MarketLoad.Decimal.Basic

/-!
# The numbers of decimals

A decimal denotes a rational number (`Decimal.value`), and two decimals are compared as these
numbers are (`Decimal.sameValue_iff`). A zero may have a sign, which its number does not show
(`Decimal.value_plain`).
-/

namespace MarketLoad

theorem tenTo_ne_zero (k : Nat) : (tenTo k : ℚ) ≠ 0 := by
  have := tenTo_pos k
  positivity

namespace Decimal

/-- The number that a decimal denotes. -/
def value (d : Decimal) : ℚ := (d.signed : ℚ) / (tenTo d.scale : ℚ)

theorem sameValue_iff {a b : Decimal} : a.sameValue b = true ↔ a.value = b.value := by
  have ha := tenTo_ne_zero a.scale
  have hb := tenTo_ne_zero b.scale
  rw [sameValue, compare, beq_iff_eq, Std.LawfulEqCmp.compare_eq_iff_eq, value, value,
    div_eq_div_iff ha hb]
  norm_cast

/-- The sign of a decimal as a factor. -/
def sign (d : Decimal) : ℚ := if d.negative then -1 else 1

theorem sign_ne_zero (d : Decimal) : d.sign ≠ 0 := by
  rw [sign]
  split <;> norm_num

theorem value_eq (d : Decimal) :
    d.value = d.sign * ((d.coefficient : ℚ) / (tenTo d.scale : ℚ)) := by
  rw [value, signed, sign]
  cases d.negative <;> simp [neg_div]

/-- The decimal without the sign of a zero. -/
def plain (d : Decimal) : Decimal := { d with negative := signOf d.negative d.coefficient }

theorem ofParts?_self (d : Decimal) :
    ofParts? d.negative d.coefficient d.scale = some d.plain :=
  dif_pos ⟨d.coefficient_lt, d.scale_le⟩

theorem value_plain (d : Decimal) : d.plain.value = d.value := by
  have hsigned : d.plain.signed = d.signed := by
    by_cases hzero : d.coefficient = 0
    · simp [signed, plain, hzero]
    · simp [signed, plain, signOf, hzero]
  rw [value, hsigned]
  rfl

end Decimal

end MarketLoad
