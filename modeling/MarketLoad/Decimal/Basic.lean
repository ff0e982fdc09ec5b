import MarketLoad.Powers

/-! # Fixed-point decimals

A decimal is a sign and a coefficient with a number of fraction digits, the scale. The
coefficient keeps within 96 bits and the scale within 28, so not every rational has a
decimal. Sign and scale are part of the value as it is written (`1.50` is not written like
`1.5`, and a zero may stand behind a minus), while `compare` and `sameValue` see only the
number. -/

namespace MarketLoad

/-- Coefficients stay below this. -/
def Decimal.coefficientLimit : Nat := twoTo 96

/-- The most fraction digits a decimal holds. -/
def Decimal.maxScale : Nat := 28

/-- The decimal number `± coefficient / 10 ^ scale`. -/
structure Decimal where
  negative : Bool
  coefficient : Nat
  scale : Nat
  coefficient_lt : coefficient < Decimal.coefficientLimit
  scale_le : scale ≤ Decimal.maxScale
deriving DecidableEq, Repr

namespace Decimal

/-- The sign of a coefficient whose zero has none. -/
def signOf (negative : Bool) (coefficient : Nat) : Bool := negative && coefficient != 0

/-- The decimal with these parts, if they are in range. A zero made so has no sign. -/
def ofParts? (negative : Bool) (coefficient scale : Nat) : Option Decimal :=
  if h : coefficient < coefficientLimit ∧ scale ≤ maxScale then
    some ⟨signOf negative coefficient, coefficient, scale, h.1, h.2⟩
  else none

/-- The decimal `n / 10 ^ scale`, if its parts are in range. -/
def ofInt? (n : Int) (scale : Nat) : Option Decimal := ofParts? (n < 0) n.natAbs scale

instance : Inhabited Decimal := ⟨false, 0, 0, by decide, by decide⟩

/-- Zero without fraction digits. -/
def zero : Decimal := ⟨false, 0, 0, by decide, by decide⟩

/-- A 64-bit count as a decimal without fraction digits. -/
def ofUInt64 (n : UInt64) : Decimal :=
  { negative := false
    coefficient := n.toNat
    scale := 0
    coefficient_lt :=
      Nat.lt_trans n.toNat_lt (show UInt64.size < coefficientLimit by decide)
    scale_le := by decide }

/-- The coefficient under its sign. -/
def signed (d : Decimal) : Int := if d.negative then -(d.coefficient : Int) else d.coefficient

/-- The order of the numbers, whatever their scales. -/
def compare (a b : Decimal) : Ordering :=
  Ord.compare (a.signed * tenTo b.scale) (b.signed * tenTo a.scale)

/-- Whether two decimals denote the same number. -/
def sameValue (a b : Decimal) : Bool := a.compare b == .eq

def isPositive (d : Decimal) : Bool := 0 < d.signed

end Decimal
end MarketLoad
