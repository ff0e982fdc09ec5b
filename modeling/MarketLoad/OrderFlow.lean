import MarketLoad.Catalog
import MarketLoad.RandomStream

/-! # Random order flow

Each session draws its orders from a stream of its own: a listing, a side, an offset from the
reference price in basis points, and a quantity, in this order. -/

namespace MarketLoad

/-- The shape of an order flow. -/
structure FlowShape where
  /-- The greatest offset from the reference price, in basis points either way. -/
  maxJitter : Int64
  /-- The least quantity; at least one is traded anyway. -/
  minQuantity : UInt32
  /-- The greatest quantity, if it is not below the least. -/
  maxQuantity : UInt32
deriving DecidableEq, Repr

/-- The shape of a run that does not choose one. -/
def FlowShape.standard : FlowShape := { maxJitter := 500, minQuantity := 1, maxQuantity := 20 }

namespace FlowShape

/-- The greatest offset as a natural number; the least signed number has none. -/
def spread (shape : FlowShape) : Except Fault Nat :=
  if shape.maxJitter = Int64.minValue then .error .negOverflow
  else .ok shape.maxJitter.toInt.natAbs

def lowQuantity (shape : FlowShape) : Nat := max shape.minQuantity.toNat 1

def highQuantity (shape : FlowShape) : Nat := max shape.maxQuantity.toNat shape.lowQuantity

end FlowShape

/-- A source of random orders. -/
structure OrderFlow where
  catalog : Catalog
  shape : FlowShape
  random : RandomStream

namespace OrderFlow

def ofSeed (catalog : Catalog) (shape : FlowShape) (seed : UInt64) : OrderFlow :=
  { catalog, shape, random := .ofSeed seed }

/-- Draws the next order. An empty catalog has none, and draws nothing. -/
def next (flow : OrderFlow) : Except Fault (Option Order × OrderFlow) :=
  if flow.catalog.isEmpty then .ok (none, flow)
  else
    let (index, r) := flow.random.nextBetween .pair 0 (flow.catalog.size - 1)
    match flow.catalog.listings[index.toNat]? with
    | none => .ok (none, { flow with random := r })
    | some listing => do
      let (buys, r) := r.nextCoin
      let spread ← flow.shape.spread
      let (bps, r) := r.nextBetween .pair (-spread) spread
      let price ← listing.basePrice.jittered (Int64.ofInt bps)
      let (units, r) :=
        r.nextBetween .word flow.shape.lowQuantity flow.shape.highQuantity
      let order :=
        (Quantity.ofUnits? (UInt32.ofNat units.toNat)).map
          (Order.limit listing.symbol (if buys then .buy else .sell) price)
      return (order, { flow with random := r })

/-- Draws a number of orders: those drawn before the first fault, and the fault, if any. -/
def take (flow : OrderFlow) : (count : Nat) → List (Option Order) × Option Fault
  | 0 => ([], none)
  | count + 1 =>
    match flow.next with
    | .error fault => ([], some fault)
    | .ok (order, flow) =>
      let (orders, fault?) := flow.take count
      (order :: orders, fault?)

end OrderFlow

end MarketLoad
