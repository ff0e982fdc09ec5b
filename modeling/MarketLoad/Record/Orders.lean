import MarketLoad.Endpoint
import MarketLoad.Json.Recorded
import MarketLoad.OrderFlow

/-! # Records of orders and catalogs

Names, prices and quantities are recorded as they are: reading does not check that a name is
wire safe, that a price has two places, or that a quantity is at least one. -/

namespace MarketLoad

instance : Recorded Trader where
  toRecord t := .text t.name
  ofRecord? j := (ofRecord? j).map Trader.mk

instance : Recorded Symbol where
  toRecord s := .text s.ticker
  ofRecord? j := (ofRecord? j).map Symbol.mk

instance : Recorded Decimal where
  toRecord d := .text d.text
  ofRecord? j := (ofRecord? j).bind Decimal.read?

instance : Recorded Price where
  toRecord p := toRecord p.amount
  ofRecord? j := (ofRecord? j).map Price.mk

instance : Recorded Quantity where
  toRecord q := toRecord q.units
  ofRecord? j := (ofRecord? j).map Quantity.mk

instance : Recorded Side where
  toRecord s := .text s.text
  ofRecord? := Json.ofNames? ([.buy, .sell].map fun s : Side => (s.text, s))

instance : Recorded OrderKind where
  toRecord k := .text k.text
  ofRecord? := Json.ofNames? ([.limit, .market].map fun k : OrderKind => (k.text, k))

instance : Recorded Order where
  toRecord o := .record
    [("symbol", toRecord o.symbol), ("side", toRecord o.side), ("kind", toRecord o.kind),
      ("price", toRecord o.price), ("quantity", toRecord o.quantity)]
  ofRecord? j := do
    let [symbol, side, kind, price, quantity] ←
      j.fields? ["symbol", "side", "kind", "price", "quantity"] | none
    return { symbol := ← Json.required symbol, side := ← Json.required side,
             kind := ← Json.required kind, price := ← Json.required price,
             quantity := ← Json.required quantity }

instance : Recorded Listing where
  toRecord l := .record [("symbol", toRecord l.symbol), ("base_price", toRecord l.basePrice)]
  ofRecord? j := do
    let [symbol, basePrice] ← j.fields? ["symbol", "base_price"] | none
    return { symbol := ← Json.required symbol, basePrice := ← Json.required basePrice }

instance : Recorded Catalog where
  toRecord c := .record [("entries", toRecord c.listings)]
  ofRecord? j := do
    let [listings] ← j.fields? ["entries"] | none
    return { listings := ← Json.required listings }

instance : Recorded FlowShape where
  toRecord s := .record
    [("max_jitter_bps", toRecord s.maxJitter), ("min_quantity", toRecord s.minQuantity),
      ("max_quantity", toRecord s.maxQuantity)]
  ofRecord? j := do
    let [maxJitter, minQuantity, maxQuantity] ←
      j.fields? ["max_jitter_bps", "min_quantity", "max_quantity"] | none
    return { maxJitter := ← Json.required maxJitter, minQuantity := ← Json.required minQuantity,
             maxQuantity := ← Json.required maxQuantity }

instance : Recorded Endpoint where
  toRecord e := .record [("host", toRecord e.host), ("port", toRecord e.port)]
  ofRecord? j := do
    let [host, port] ← j.fields? ["host", "port"] | none
    return { host := ← Json.required host, port := ← Json.required port }

end MarketLoad
