import MarketLoad.Proofs.Jitter
import MarketLoad.Proofs.OrderFlow

/-!
# The bounds of orders

Where every reference price can be moved exactly as far as the shape of a flow allows
(`Price.MovesWithin`), no draw is a fault, and every order keeps the bounds that its catalog and its
shape set (`Order.InBounds`, `OrderFlow.orders_in_bounds`).
-/

namespace MarketLoad

/-- A price that is not below zero and that up to so many basis points move exactly. -/
structure Price.MovesWithin (p : Price) (spread : Nat) : Prop where
  nonneg : 0 ≤ p.amount.value
  scale : p.amount.scale + 4 ≤ Decimal.maxScale
  fits : p.amount.coefficient * (wholeBps + spread) < Decimal.coefficientLimit

/-- What a catalog and a shape allow of an order: its symbol and the cents that its price lies between
come from one listing. -/
structure Order.InBounds (catalog : Catalog) (shape : FlowShape) (o : Order) : Prop where
  kind : o.kind = .limit
  listing : ∃ listing ∈ catalog.listings, o.symbol = listing.symbol ∧
    toCents (listing.basePrice.moved (-shape.maxJitter.toInt.natAbs)) ≤ o.price.amount.value ∧
    o.price.amount.value ≤ toCents (listing.basePrice.moved shape.maxJitter.toInt.natAbs)
  places : o.price.amount.scale ≤ 2
  quantity : max 1 shape.minQuantity.toNat ≤ o.quantity.units.toNat ∧
    o.quantity.units.toNat ≤ max shape.maxQuantity.toNat (max 1 shape.minQuantity.toNat)

namespace Price

variable {p q : Price} {bps : Int64} {spread : Nat}

theorem MovesWithin.movesExactly (h : p.MovesWithin spread) (hspread : spread < wholeBps)
    (hbps : bps.toInt.natAbs ≤ spread) : p.MovesExactly bps := by
  have hwhole : wholeBps = 10000 := rfl
  have hmax : Int64.maxValue.toInt = 9223372036854775807 := rfl
  refine ⟨by omega, h.scale, Nat.lt_of_le_of_lt (Nat.mul_le_mul_left _ ?_) h.fits⟩
  omega

theorem MovesWithin.not_overflows (h : p.MovesWithin spread) :
    ¬ p.Overflows (wholeBps + spread) := by
  intro hover
  have hone : 2 * Decimal.coefficientLimit - 1 ≤
      (2 * Decimal.coefficientLimit - 1) * tenTo (p.amount.scale + 4) :=
    Nat.le_mul_of_pos_right _ (tenTo_pos _)
  have hfits := h.fits
  unfold Overflows at hover
  omega

/-- A price is moved between the ends of its band. -/
theorem MovesWithin.bounds_of_jittered (h : p.MovesWithin spread) (hspread : spread < wholeBps)
    (hbps : bps.toInt.natAbs ≤ spread) (hq : p.jittered bps = .ok q) :
    toCents (p.moved (-spread)) ≤ q.amount.value ∧ q.amount.value ≤ toCents (p.moved spread) := by
  have hwhole : wholeBps = 10000 := rfl
  obtain ⟨_, hjittered, hvalue⟩ := exists_jittered (h.movesExactly hspread hbps)
  cases hjittered.symm.trans hq
  rw [hvalue]
  exact ⟨toCents_le_toCents (moved_le_moved h.nonneg le_rfl (by omega) (by omega)),
    toCents_le_toCents (moved_le_moved h.nonneg le_rfl (by omega) (by omega))⟩

theorem scale_of_jittered (hq : p.jittered bps = .ok q) : q.amount.scale ≤ places :=
  (IsMade.jittered hq).scale_le

end Price

/-- An order keeps the bounds of the listing and the shape that it was drawn with. -/
theorem Order.Drawn.inBounds {catalog : Catalog} {shape : FlowShape} {listing : Listing}
    {bps : Int64} {o : Order} (h : o.Drawn catalog shape listing bps)
    (hspread : shape.maxJitter.toInt.natAbs < Price.wholeBps)
    (hprice : listing.basePrice.MovesWithin shape.maxJitter.toInt.natAbs) :
    o.InBounds catalog shape where
  kind := h.kind
  listing := ⟨listing, h.listed, h.symbol, hprice.bounds_of_jittered hspread h.offset h.price⟩
  places := Price.scale_of_jittered h.price
  quantity := by
    rw [max_comm 1]
    exact h.quantity

namespace OrderFlow

/-- An empty catalog has no order, each time it is asked. A catalog that lists anything has one each
time, within its bounds, where all its prices can be moved exactly as far as the shape allows. -/
theorem orders_in_bounds (flow : OrderFlow) (count : Nat) :
    let spread := flow.shape.maxJitter.toInt.natAbs
    (flow.catalog.isEmpty = true → flow.take count = (List.replicate count none, none)) ∧
      (flow.catalog.isEmpty = false → spread < 10000 →
        (∀ listing ∈ flow.catalog.listings, listing.basePrice.MovesWithin spread) →
        ∃ orders : List Order, flow.take count = (orders.map some, none) ∧
          orders.length = count ∧ ∀ o ∈ orders, o.InBounds flow.catalog flow.shape) := by
  intro spread
  refine ⟨fun hempty => take_of_isEmpty hempty count, fun hcatalog hspread hprices => ?_⟩
  have hfault : (flow.take count).2 = none := by
    rw [Option.eq_none_iff_forall_ne_some]
    intro fault hfault
    obtain ⟨-, listing, hlisting, hover⟩ := overflows_of_take (Nat.le_of_lt hspread) hfault
    exact (hprices listing hlisting).not_overflows hover
  obtain ⟨orders, htake, hlength⟩ := exists_orders_of_take hcatalog hfault
  refine ⟨orders, htake, hlength, fun o ho => ?_⟩
  have hmem : some o ∈ (flow.take count).1 := by
    rw [htake]
    exact List.mem_map_of_mem ho
  obtain ⟨listing, bps, hdrawn⟩ := drawn_of_mem_take hmem
  exact hdrawn.inBounds hspread (hprices listing hdrawn.listed)

/-- Three orders from one listing at 99.99, with the widest offsets and with a least quantity above the
greatest. -/
theorem orders_in_bounds_inverted :
    let base : Price := ⟨⟨false, 9999, 2, by decide, by decide⟩⟩
    let shape : FlowShape := { maxJitter := -9999, minQuantity := 7, maxQuantity := 3 }
    let flow : OrderFlow := .ofSeed ⟨[⟨⟨"A"⟩, base⟩]⟩ shape 7
    flow.catalog.isEmpty = false ∧ shape.maxJitter.toInt.natAbs = 9999 ∧ base.MovesWithin 9999 ∧
      ∃ orders : List Order, flow.take 3 = (orders.map some, none) ∧ orders.length = 3 ∧
        ∀ o ∈ orders, o.symbol = ⟨"A"⟩ ∧ o.quantity.units.toNat = 7 ∧
          1 / 100 ≤ o.price.amount.value ∧ o.price.amount.value ≤ 19997 / 100 := by
  intro base shape flow
  have hwithin : base.MovesWithin 9999 := ⟨by decide +kernel, by decide, by decide⟩
  have hlow : toCents (base.moved (-9999)) = 1 / 100 := by decide +kernel
  have hhigh : toCents (base.moved 9999) = 19997 / 100 := by decide +kernel
  refine ⟨rfl, rfl, hwithin, ?_⟩
  obtain ⟨orders, htake, hlength, hbounds⟩ := (orders_in_bounds flow 3).2 rfl (by decide)
    (List.forall_mem_singleton.2 hwithin)
  refine ⟨orders, htake, hlength, fun o ho => ?_⟩
  obtain ⟨-, ⟨listing, hlisting, hsymbol, hprice⟩, -, hquantity⟩ := hbounds o ho
  cases List.mem_singleton.1 hlisting
  have hspread : flow.shape.maxJitter.toInt.natAbs = 9999 := rfl
  rw [hspread] at hprice
  exact ⟨hsymbol, le_antisymm hquantity.2 hquantity.1, hlow ▸ hprice.1, hhigh ▸ hprice.2⟩

end OrderFlow

end MarketLoad
