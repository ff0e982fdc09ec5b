import MarketLoad.Identity
import MarketLoad.Price

/-! # Orders -/

namespace MarketLoad

/-- Buying or selling. -/
inductive Side
  | buy
  | sell
deriving DecidableEq, Repr

/-- How an order meets the book. -/
inductive OrderKind
  /-- Rests at its price. -/
  | limit
  /-- Takes the best price there is. -/
  | market
deriving DecidableEq, Repr

/-- The spelling on the wire. -/
def Side.text : Side → String
  | .buy => "BUY"
  | .sell => "SELL"

/-- The spelling on the wire. -/
def OrderKind.text : OrderKind → String
  | .limit => "LIMIT"
  | .market => "MARKET"

structure Order where
  symbol : Symbol
  side : Side
  kind : OrderKind
  price : Price
  quantity : Quantity
deriving DecidableEq, Repr

namespace Order

def limit (symbol : Symbol) (side : Side) (price : Price) (quantity : Quantity) : Order :=
  { symbol, side, kind := .limit, price, quantity }

/-- A limit order from a ticker and a number of units, if both are valid. -/
def limit? (ticker : String) (side : Side) (price : Price) (units : UInt32) : Option Order := do
  let symbol ← Symbol.ofTicker? ticker
  let quantity ← Quantity.ofUnits? units
  return limit symbol side price quantity

end Order

end MarketLoad
