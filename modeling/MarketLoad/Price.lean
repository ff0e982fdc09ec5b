import MarketLoad.Decimal.Rounding
import MarketLoad.Decimal.Text
import MarketLoad.Fault

/-! # Prices and quantities

A price made from a number has at most two fraction digits, halves rounded away from zero. A
price read from a record keeps the digits it was written with. -/

namespace MarketLoad

/-- A limit price. -/
structure Price where
  amount : Decimal
deriving DecidableEq, Repr

namespace Price

/-- Fraction digits of a price on the wire. -/
def places : Nat := 2

/-- The price nearest to a number, halves going away from zero. -/
def ofDecimal (value : Decimal) : Price := ⟨value.roundPlaces places⟩

def ofUInt64 (value : UInt64) : Price := ofDecimal (.ofUInt64 value)

/-- Reads a price such as `150.5`. -/
def ofText? (text : String) : Option Price := (Decimal.readExact? text).map ofDecimal

def text (p : Price) : String := p.amount.fixed places

def isPositive (p : Price) : Bool := p.amount.isPositive

def compare (a b : Price) : Ordering := a.amount.compare b.amount

/-- The greater price; of two equal ones the second. -/
def max (a b : Price) : Price := if a.compare b = .gt then a else b

/-- Basis points in one whole. -/
def wholeBps : Nat := 10000

/-- Fraction digits of the factor `bps / 10000`: none for a whole factor and otherwise at
least two, except that one is enough for tenths of a multiple of `2 ^ 24`. -/
def factorScale (bps : Nat) : Nat :=
  if bps % 10000 = 0 then 0
  else if bps % 1000 = 0 ∧ bps / 1000 % twoTo 24 = 0 then 1
  else if bps % 100 = 0 then 2
  else if bps % 10 = 0 then 3
  else 4

/-- The factor `(10000 + bps) / 10000`, unless `10000 + bps` leaves the signed 64-bit
range. -/
def jitterFactor (bps : Int64) : Except Fault Decimal :=
  let sum := wholeBps + bps.toInt
  if sum ≤ Int64.maxValue.toInt then
    let scale := factorScale sum.natAbs
    match Decimal.ofParts? (sum < 0) (sum.natAbs / tenTo (4 - scale)) scale with
    | some factor => .ok factor
    | none => .error .addOverflow
  else .error .addOverflow

/-- The price moved by `bps` basis points and rounded again. -/
def jittered (p : Price) (bps : Int64) : Except Fault Price := do
  let factor ← jitterFactor bps
  match p.amount.mul? factor with
  | some product => .ok (ofDecimal product)
  | none => .error .productOverflow

end Price

/-- A number of whole units. -/
structure Quantity where
  units : UInt32
deriving DecidableEq, Repr

namespace Quantity

/-- A quantity to trade: at least one unit. -/
def ofUnits? (units : UInt32) : Option Quantity :=
  if units = 0 then none else some ⟨units⟩

def text (q : Quantity) : String := String.ofList (Text.digits q.units.toNat)

end Quantity

end MarketLoad
