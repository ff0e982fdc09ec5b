import MarketLoad.Decimal.Basic
import MarketLoad.Rounding

/-! # Rounding and multiplying decimals

Prices are rounded to a number of places with halves going away from zero
(`Decimal.roundPlaces`). A product that does not fit is rounded once, halves to the even
neighbour, to the most places that still fit (`Decimal.mul?`). -/

namespace MarketLoad

namespace Decimal

/-- The coefficient without its last digits, rounded at the cut with halves going up. -/
def cutDigits (d : Decimal) (count : Nat) : Nat := roundHalfUp d.coefficient (tenTo count)

theorem cutDigits_lt (d : Decimal) {count : Nat} (h : 0 < count) :
    d.cutDigits count < coefficientLimit := by
  obtain ⟨k, rfl⟩ : ∃ k, count = k + 1 := ⟨count - 1, by omega⟩
  have h10 : 2 ≤ tenTo (k + 1) := by
    have := tenTo_pos k
    rw [tenTo_succ]
    omega
  exact Nat.lt_of_le_of_lt (roundHalfUp_le h10) d.coefficient_lt

/-- The multiple of `10 ^ -places` nearest to `d`, halves going away from zero. A decimal
that already has at most `places` fraction digits stays as it is; a rounded zero has no
sign. -/
def roundPlaces (d : Decimal) (places : Nat) : Decimal :=
  if h : d.scale ≤ places then d
  else
    let kept := d.cutDigits (d.scale - places)
    { negative := signOf d.negative kept
      coefficient := kept
      scale := places
      coefficient_lt := d.cutDigits_lt (by omega)
      scale_le := by have := d.scale_le; omega }

/-- The first of the scales `scale`, `scale - 1`, …, `0` at which `magnitude` (with `excess`
digits too many at `scale`) fits once it is rounded there. -/
def fitScale? (negative : Bool) (magnitude excess : Nat) : Nat → Option Decimal
  | 0 => ofParts? negative (roundHalfEven magnitude (tenTo excess)) 0
  | scale + 1 =>
    (ofParts? negative (roundHalfEven magnitude (tenTo excess)) (scale + 1)).or
      (fitScale? negative magnitude (excess + 1) scale)

/-- The product, exact if it fits and otherwise rounded once to the most places that fit;
`none` if not even its integer part fits. A product with a zero has no fraction digits. -/
def mul? (a b : Decimal) : Option Decimal :=
  let product := a.coefficient * b.coefficient
  let scale := a.scale + b.scale
  if product = 0 then some zero
  else
    fitScale? (a.negative != b.negative) product (scale - maxScale) (min scale maxScale)

end Decimal
end MarketLoad
