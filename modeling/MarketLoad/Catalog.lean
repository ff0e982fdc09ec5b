import MarketLoad.Order

/-! # The symbol catalog

The symbols a run trades, with their reference prices, in a fixed order. -/

namespace MarketLoad

/-- A symbol with its reference price. -/
structure Listing where
  symbol : Symbol
  basePrice : Price
deriving DecidableEq, Repr

/-- The tradable symbols, in order. -/
structure Catalog where
  listings : List Listing
deriving DecidableEq, Repr

namespace Catalog

/-- The listing of a ticker and a price, if the price is above zero and the ticker valid. -/
def listing? (ticker : String) (price : Price) : Option Listing :=
  if price.isPositive then (Symbol.ofTicker? ticker).map fun symbol => ⟨symbol, price⟩ else none

/-- The catalog of all pairs that make a listing; the others are passed over. -/
def ofPairs (pairs : List (String × Price)) : Catalog :=
  ⟨pairs.filterMap fun (ticker, price) => listing? ticker price⟩

def size (c : Catalog) : Nat := c.listings.length

def isEmpty (c : Catalog) : Bool := c.listings.isEmpty

/-- The reference price of the first listing of a symbol. -/
def basePrice? (c : Catalog) (symbol : Symbol) : Option Price :=
  (c.listings.find? fun l => l.symbol == symbol).map (·.basePrice)

/-- The catalog of a run that names no symbols. -/
def standard : Catalog :=
  ofPairs
    [("AAPL", .ofUInt64 150), ("GOOGL", .ofUInt64 2800), ("MSFT", .ofUInt64 400),
      ("TSLA", .ofUInt64 250), ("AMZN", .ofUInt64 150), ("META", .ofUInt64 350),
      ("NVDA", .ofUInt64 500), ("NFLX", .ofUInt64 450)]

end Catalog

end MarketLoad
