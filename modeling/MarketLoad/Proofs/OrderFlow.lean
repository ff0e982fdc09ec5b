import MarketLoad.OrderFlow
import MarketLoad.Proofs.Price

/-!
# Drawing orders

Every draw lies in its range (`RandomStream.nextBetween_mem`), so every order is what the catalog and
the shape of the flow allow (`OrderFlow.drawn_of_mem_take`), a catalog that lists anything has an
order each time it is asked without a fault (`OrderFlow.exists_orders_of_take`), and only a price
near the greatest makes a fault (`OrderFlow.overflows_of_take`). The orders of a flow are numbered
by their draws (`OrderFlow.nth?`).
-/

namespace MarketLoad

namespace RandomStream

variable {w : Width} {range : Nat} {r : RandomStream}

theorem nextBits_lt (w : Width) (r : RandomStream) : (r.nextBits w).1 < twoTo w.bits := by
  have hsize : twoTo 32 = UInt32.size := rfl
  cases w with
  | word =>
    have hlt := r.nextWord.1.toNat_lt_size
    exact hlt
  | pair =>
    have hlow := r.nextWord.1.toNat_lt_size
    have hhigh := r.nextWord.2.nextWord.1.toNat_lt_size
    have hpair : (r.nextBits .pair).1 =
        r.nextWord.1.toNat + UInt32.size * r.nextWord.2.nextWord.1.toNat := rfl
    have hbits : twoTo (Width.bits .pair) = UInt32.size * UInt32.size := rfl
    rw [hpair, hbits]
    calc r.nextWord.1.toNat + UInt32.size * r.nextWord.2.nextWord.1.toNat
        < UInt32.size * (r.nextWord.2.nextWord.1.toNat + 1) := by
          rw [Nat.mul_add_one]; omega
      _ ≤ UInt32.size * UInt32.size := Nat.mul_le_mul_left _ hhigh

private theorem scaled_lt {v : Nat} (hv : v < twoTo w.bits) (hrange : 0 < range) :
    v * range / twoTo w.bits < range :=
  Nat.div_lt_of_lt_mul (Nat.mul_lt_mul_of_pos_right hv hrange)

theorem nextBelow_lt (hrange : 0 < range) (r : RandomStream) (patience : Nat) :
    (nextBelow w range r patience).1 < range := by
  induction patience generalizing r with
  | zero => exact scaled_lt (nextBits_lt w r) hrange
  | succ patience ih =>
    rw [nextBelow]
    dsimp only
    split
    · exact scaled_lt (nextBits_lt w r) hrange
    · exact ih (r.nextBits w).2

theorem nextBetween_mem {low high : Int} (h : low ≤ high) (w : Width) (r : RandomStream) :
    low ≤ (r.nextBetween w low high).1 ∧ (r.nextBetween w low high).1 ≤ high := by
  have hlt := nextBelow_lt (w := w) (show 0 < (high - low + 1).toNat by omega) r patience
  have hdraw : (r.nextBetween w low high).1 =
      low + (nextBelow w (high - low + 1).toNat r patience).1 := rfl
  omega

end RandomStream

namespace FlowShape

variable {shape : FlowShape} {spread : Nat}

theorem of_spread_eq_ok (h : shape.spread = .ok spread) :
    shape.maxJitter ≠ Int64.minValue ∧ spread = shape.maxJitter.toInt.natAbs := by
  unfold FlowShape.spread at h
  split at h
  · cases h
  · cases h
    exact ⟨‹_›, rfl⟩

/-- An offset that is drawn is not wrapped. -/
theorem toInt_offset (h : shape.spread = .ok spread) (r : RandomStream) :
    let drawn := (r.nextBetween .pair (-spread) spread).1
    (Int64.ofInt drawn).toInt = drawn ∧ drawn.natAbs ≤ shape.maxJitter.toInt.natAbs := by
  obtain ⟨hmin, rfl⟩ := of_spread_eq_ok h
  have hlow := shape.maxJitter.le_toInt
  have hhigh := shape.maxJitter.toInt_lt
  have hne : shape.maxJitter.toInt ≠ -2 ^ 63 := fun heq => hmin (Int64.toInt_inj.1 heq)
  have hdraw := RandomStream.nextBetween_mem
    (show -(shape.maxJitter.toInt.natAbs : Int) ≤ shape.maxJitter.toInt.natAbs by omega) .pair r
  generalize (r.nextBetween .pair _ _).1 = drawn at hdraw
  exact ⟨Int64.toInt_ofInt_of_le (by omega) (by omega), by omega⟩

/-- Every quantity that is drawn can be traded. -/
theorem exists_quantity (shape : FlowShape) (r : RandomStream) :
    ∃ quantity, Quantity.ofUnits? (.ofNat
        (r.nextBetween .word shape.lowQuantity shape.highQuantity).1.toNat) = some quantity ∧
      shape.lowQuantity ≤ quantity.units.toNat ∧ quantity.units.toNat ≤ shape.highQuantity := by
  have hbounds : 1 ≤ shape.lowQuantity ∧ shape.lowQuantity ≤ shape.highQuantity ∧
      shape.highQuantity < UInt32.size := by
    have hmin := shape.minQuantity.toNat_lt_size
    have hmax := shape.maxQuantity.toNat_lt_size
    have hone : 1 < UInt32.size := by decide
    unfold highQuantity lowQuantity
    omega
  obtain ⟨hone, hle, hlt⟩ := hbounds
  obtain ⟨hlow, hhigh⟩ := RandomStream.nextBetween_mem (Int.ofNat_le.2 hle) .word r
  generalize (r.nextBetween .word shape.lowQuantity shape.highQuantity).1 = drawn at hlow hhigh
  have hunits : (UInt32.ofNat drawn.toNat).toNat = drawn.toNat :=
    UInt32.toNat_ofNat_of_lt' (by omega)
  refine ⟨⟨.ofNat drawn.toNat⟩, ?_, ?_⟩
  · rw [Quantity.ofUnits?, if_neg]
    intro hzero
    have hnat := congrArg UInt32.toNat hzero
    have hnone : (0 : UInt32).toNat = 0 := rfl
    omega
  · dsimp only
    omega

end FlowShape

/-- What a catalog and a shape allow of an order: the listing and the offset it was drawn with. -/
structure Order.Drawn (catalog : Catalog) (shape : FlowShape) (listing : Listing) (bps : Int64)
    (o : Order) : Prop where
  listed : listing ∈ catalog.listings
  offset : bps.toInt.natAbs ≤ shape.maxJitter.toInt.natAbs
  symbol : o.symbol = listing.symbol
  kind : o.kind = .limit
  price : listing.basePrice.jittered bps = .ok o.price
  quantity : shape.lowQuantity ≤ o.quantity.units.toNat ∧
    o.quantity.units.toNat ≤ shape.highQuantity

namespace OrderFlow

variable {flow flow' : OrderFlow} {order : Option Order} {fault : Fault}

/-- A flow keeps its catalog and its shape. -/
theorem keeps_of_next (h : flow.next = .ok (order, flow')) :
    flow'.catalog = flow.catalog ∧ flow'.shape = flow.shape := by
  unfold next at h
  split at h
  · cases h
    exact ⟨rfl, rfl⟩
  · dsimp only at h
    split at h
    · cases h
      exact ⟨rfl, rfl⟩
    · obtain ⟨spread, -, h⟩ := bind_eq_ok.1 h
      obtain ⟨price, -, h⟩ := bind_eq_ok.1 h
      cases h
      exact ⟨rfl, rfl⟩

/-- Every order of a flow is drawn from its catalog in its shape. -/
theorem drawn_of_next {o : Order} (h : flow.next = .ok (some o, flow')) :
    ∃ listing bps, o.Drawn flow.catalog flow.shape listing bps := by
  unfold next at h
  split at h
  · cases h
  · dsimp only at h
    split at h
    · cases h
    · rename_i listing hlisting
      obtain ⟨spread, hspread, h⟩ := bind_eq_ok.1 h
      obtain ⟨price, hprice, h⟩ := bind_eq_ok.1 h
      obtain ⟨horder, -⟩ := Prod.mk.inj (Except.ok.inj h)
      obtain ⟨quantity, hquantity, rfl⟩ := Option.map_eq_some_iff.1 horder
      obtain ⟨drawn, hdrawn, hbounds⟩ := flow.shape.exists_quantity
        ((flow.random.nextBetween .pair 0 (flow.catalog.size - 1)).2.nextCoin.2.nextBetween .pair
          (-spread) spread).2
      cases hquantity.symm.trans hdrawn
      obtain ⟨hexact, hoffset⟩ := FlowShape.toInt_offset hspread
        (flow.random.nextBetween .pair 0 (flow.catalog.size - 1)).2.nextCoin.2
      exact ⟨listing, _,
        { listed := List.mem_of_getElem? hlisting, offset := by rwa [hexact], symbol := rfl,
          kind := rfl, price := hprice, quantity := hbounds }⟩

/-- Every order of a flow is for a symbol of its catalog. -/
theorem symbol_of_next {o : Order} (h : flow.next = .ok (some o, flow')) :
    ∃ listing ∈ flow.catalog.listings, o.symbol = listing.symbol := by
  obtain ⟨listing, _, hdrawn⟩ := drawn_of_next h
  exact ⟨listing, hdrawn.listed, hdrawn.symbol⟩

/-- A catalog that lists anything has an order, or the draw is a fault. -/
theorem exists_order_of_next (hcatalog : flow.catalog.isEmpty = false)
    (h : flow.next = .ok (order, flow')) : ∃ o, order = some o := by
  unfold next at h
  rw [hcatalog, if_neg Bool.false_ne_true] at h
  dsimp only at h
  have hsize : 0 < flow.catalog.size := List.length_pos_iff.2 (List.isEmpty_eq_false_iff.1 hcatalog)
  obtain ⟨hlow, hhigh⟩ := RandomStream.nextBetween_mem
    (show (0 : Int) ≤ flow.catalog.size - 1 by omega) .pair flow.random
  have hindex : (flow.random.nextBetween .pair 0 (flow.catalog.size - 1)).1.toNat <
      flow.catalog.listings.length := by
    have hlength : flow.catalog.listings.length = flow.catalog.size := rfl
    omega
  rw [List.getElem?_eq_getElem hindex] at h
  dsimp only at h
  obtain ⟨spread, -, h⟩ := bind_eq_ok.1 h
  obtain ⟨price, -, h⟩ := bind_eq_ok.1 h
  cases h
  obtain ⟨quantity, hquantity, -⟩ := flow.shape.exists_quantity
    ((flow.random.nextBetween .pair 0 (flow.catalog.size - 1)).2.nextCoin.2.nextBetween .pair
      (-spread) spread).2
  exact ⟨_, congrArg (Option.map _) hquantity⟩

/-- Offsets up to the whole of a price fault only where the price they make is past every
decimal. -/
theorem overflows_of_next (hjitter : flow.shape.maxJitter.toInt.natAbs ≤ Price.wholeBps)
    (h : flow.next = .error fault) :
    fault = .productOverflow ∧ ∃ listing ∈ flow.catalog.listings,
      listing.basePrice.Overflows (Price.wholeBps + flow.shape.maxJitter.toInt.natAbs) := by
  unfold next at h
  split at h
  · cases h
  · dsimp only at h
    split at h
    · cases h
    · rename_i listing hlisting
      obtain h | ⟨spread, hspread, h⟩ := bind_eq_error.1 h
      · unfold FlowShape.spread at h
        split at h
        · rename_i hmin
          rw [hmin] at hjitter
          exact absurd hjitter (by decide)
        · cases h
      · obtain h | ⟨price, -, h⟩ := bind_eq_error.1 h
        · obtain ⟨hexact, hoffset⟩ := FlowShape.toInt_offset hspread
            (flow.random.nextBetween .pair 0 (flow.catalog.size - 1)).2.nextCoin.2
          rw [Price.jittered_eq_error_iff _ (by omega), hexact] at h
          exact ⟨h.1, listing, List.mem_of_getElem? hlisting, h.2.mono (by omega)⟩
        · cases h

theorem take_of_error (h : flow.next = .error fault) (count : Nat) :
    flow.take (count + 1) = ([], some fault) := by
  rw [take, h]

theorem take_of_ok (h : flow.next = .ok (order, flow')) (count : Nat) :
    flow.take (count + 1) = (order :: (flow'.take count).1, (flow'.take count).2) := by
  rw [take, h]

/-- A flow without faults has a next order, and none after it either. -/
theorem exists_next_of_take (h : ∀ count, (flow.take count).2 = none) :
    ∃ order flow', flow.next = .ok (order, flow') ∧ ∀ count, (flow'.take count).2 = none := by
  cases hnext : flow.next with
  | error fault =>
    have hfirst := h 1
    rw [take_of_error hnext] at hfirst
    cases hfirst
  | ok drawn =>
    obtain ⟨order, flow'⟩ := drawn
    refine ⟨order, flow', rfl, fun count => ?_⟩
    have hlater := h (count + 1)
    rwa [take_of_ok hnext] at hlater

theorem overflows_of_take (hjitter : flow.shape.maxJitter.toInt.natAbs ≤ Price.wholeBps)
    {count : Nat} (h : (flow.take count).2 = some fault) :
    fault = .productOverflow ∧ ∃ listing ∈ flow.catalog.listings,
      listing.basePrice.Overflows (Price.wholeBps + flow.shape.maxJitter.toInt.natAbs) := by
  induction count generalizing flow with
  | zero => cases h
  | succ count ih =>
    cases hnext : flow.next with
    | error fault' =>
      rw [take_of_error hnext] at h
      cases h
      exact overflows_of_next hjitter hnext
    | ok drawn =>
      obtain ⟨hcatalog, hshape⟩ := keeps_of_next hnext
      rw [take_of_ok hnext] at h
      rw [← hshape] at hjitter
      have hrest := ih hjitter h
      rwa [hcatalog, hshape] at hrest

/-- Every order among the first draws is drawn from the catalog in the shape of the flow. -/
theorem drawn_of_mem_take {count : Nat} {o : Order} (h : some o ∈ (flow.take count).1) :
    ∃ listing bps, o.Drawn flow.catalog flow.shape listing bps := by
  induction count generalizing flow with
  | zero => cases h
  | succ count ih =>
    cases hnext : flow.next with
    | error fault =>
      rw [take_of_error hnext] at h
      cases h
    | ok drawn =>
      obtain ⟨hcatalog, hshape⟩ := keeps_of_next hnext
      rw [take_of_ok hnext, List.mem_cons] at h
      rcases h with h | h
      · exact drawn_of_next (hnext.trans (by rw [h]))
      · rw [← hcatalog, ← hshape]
        exact ih h

/-- An empty catalog has no orders and no faults. -/
theorem take_of_isEmpty (h : flow.catalog.isEmpty = true) (count : Nat) :
    flow.take count = (List.replicate count none, none) := by
  induction count with
  | zero => rfl
  | succ count ih =>
    have hnext : flow.next = .ok (none, flow) := by rw [next, if_pos h]
    rw [take_of_ok hnext, ih]
    rfl

/-- A catalog that lists anything has an order for each draw before the first fault. -/
theorem exists_orders_of_take (hcatalog : flow.catalog.isEmpty = false) {count : Nat}
    (h : (flow.take count).2 = none) :
    ∃ orders : List Order, flow.take count = (orders.map some, none) ∧ orders.length = count := by
  induction count generalizing flow with
  | zero => exact ⟨[], rfl, rfl⟩
  | succ count ih =>
    cases hnext : flow.next with
    | error fault =>
      rw [take_of_error hnext] at h
      cases h
    | ok drawn =>
      have hcatalog' : drawn.2.catalog.isEmpty = false := by rwa [(keeps_of_next hnext).1]
      rw [take_of_ok hnext] at h ⊢
      obtain ⟨orders, htake, hlength⟩ := ih hcatalog' h
      obtain ⟨o, ho⟩ := exists_order_of_next hcatalog hnext
      refine ⟨o :: orders, ?_, congrArg (· + 1) hlength⟩
      rw [htake, ho]
      rfl

/-- The order of a draw, counted from zero, if that draw has one. -/
def nth? (flow : OrderFlow) (place : Nat) : Option Order :=
  ((flow.take (place + 1)).1[place]?).join

theorem nth?_zero (h : flow.next = .ok (order, flow')) : flow.nth? 0 = order := by
  rw [nth?, take_of_ok h]
  rfl

theorem nth?_succ (h : flow.next = .ok (order, flow')) (place : Nat) :
    flow.nth? (place + 1) = flow'.nth? place := by
  rw [nth?, nth?, take_of_ok h]
  rfl

/-- A fault ends a flow. -/
theorem nth?_of_error (h : flow.next = .error fault) (place : Nat) : flow.nth? place = none := by
  rw [nth?, take_of_error h]
  rfl

end OrderFlow

end MarketLoad
