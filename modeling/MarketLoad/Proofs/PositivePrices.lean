import MarketLoad.Proofs.OrderBounds
import MarketLoad.Proofs.Settings

/-!
# Prices above zero

The catalog of a settings file lists prices above zero in whole cents
(`SettingsFile.isReference_of_catalog`). Validation keeps every offset below the whole of a price, so
no order of such settings has a price below zero; but a price that is moved below half a cent is
rounded to zero (`Settings.orders_above_zero`, `Settings.order_at_zero`).
-/

namespace MarketLoad

theorem exists_of_mem_mapM {α β ε : Type} {f : α → Except ε β} {as : List α} {bs : List β} {b : β}
    (h : as.mapM f = .ok bs) (hb : b ∈ bs) : ∃ a ∈ as, f a = .ok b := by
  induction as generalizing bs with
  | nil =>
    cases h
    cases hb
  | cons a as ih =>
    rw [List.mapM_cons] at h
    obtain ⟨b', hb', h⟩ := bind_eq_ok.1 h
    obtain ⟨bs', hbs', h⟩ := bind_eq_ok.1 h
    cases h
    rcases List.mem_cons.1 hb with rfl | hb
    · exact ⟨a, List.mem_cons_self, hb'⟩
    · obtain ⟨a', ha', hb⟩ := ih hbs' hb
      exact ⟨a', List.mem_cons_of_mem a ha', hb⟩

/-- A price above zero in whole cents. -/
structure Price.IsReference (p : Price) : Prop where
  positive : p.isPositive = true
  scale : p.amount.scale ≤ places

namespace Price

variable {p : Price}

theorem IsReference.cent_le (h : p.IsReference) : 1 / 100 ≤ p.amount.value := by
  have hsigned : (1 : ℚ) ≤ p.amount.signed := by exact_mod_cast of_decide_eq_true h.positive
  have hpos : (0 : ℚ) < tenTo p.amount.scale := Nat.cast_pos.2 (tenTo_pos _)
  have hle : (tenTo p.amount.scale : ℚ) ≤ tenTo 2 := Nat.cast_le.2 (tenTo_le h.scale)
  have htwo : (tenTo 2 : ℚ) = 100 := by norm_num [tenTo]
  rw [Decimal.value, le_div_iff₀ hpos]
  linarith

/-- Half of a price above zero in whole cents is half a cent at least. -/
theorem IsReference.half_cent_le_moved (h : p.IsReference) {bps : Int} (hbps : -5000 ≤ bps) :
    1 / 200 ≤ p.moved bps := by
  have hcent := h.cent_le
  have hhalf : (5000 : ℚ) ≤ 10000 + bps := by
    exact_mod_cast (show (5000 : Int) ≤ 10000 + bps by omega)
  have hproduct : (1 / 100 : ℚ) * 5000 ≤ p.amount.value * (10000 + bps) :=
    mul_le_mul hcent hhalf (by norm_num) (by linarith)
  rw [moved, le_div_iff₀ (by norm_num)]
  linarith

end Price

/-! ### Catalogs of settings files -/

theorem Catalog.isReference_standard :
    ∀ listing ∈ Catalog.standard.listings, listing.basePrice.IsReference := by
  have hlistings : ∀ listing ∈ Catalog.standard.listings,
      listing.basePrice.isPositive = true ∧ listing.basePrice.amount.scale ≤ Price.places := by
    decide +kernel
  exact fun listing hl => ⟨(hlistings listing hl).1, (hlistings listing hl).2⟩

namespace SettingsFile

theorem isReference_of_listing {ticker : String} {price : Decimal} {l : Listing}
    (h : listing ticker price = .ok l) : l.basePrice.IsReference := by
  unfold listing at h
  split at h
  · cases h
  · dsimp only at h
    split at h
    · cases h
      exact ⟨‹_›, Price.scale_ofDecimal_le price⟩
    · cases h

/-- The reference prices of a settings file are above zero and in whole cents. -/
theorem isReference_of_catalog {symbols : List (String × Decimal)} {c : Catalog}
    (h : catalog symbols = .ok c) : ∀ listing ∈ c.listings, listing.basePrice.IsReference := by
  unfold catalog at h
  split at h
  · cases h
    exact Catalog.isReference_standard
  · intro l hl
    cases hlistings : symbols.mapM fun (ticker, price) => listing ticker price with
    | error bad =>
      rw [hlistings] at h
      cases h
    | ok listings =>
      rw [hlistings] at h
      cases h
      obtain ⟨_, -, hlisting⟩ := exists_of_mem_mapM hlistings hl
      exact isReference_of_listing hlisting

end SettingsFile

namespace Settings

/-- An order of valid settings, drawn from a listing above zero in whole cents, has no price below
zero, and a price above zero exactly if it was moved to half a cent or more. -/
theorem Valid.isPositive_iff {s : Settings} (h : s.Valid) {listing : Listing} {bps : Int64}
    {o : Order} (hdrawn : o.Drawn s.catalog s.shape listing bps)
    (hlisting : listing.basePrice.IsReference) :
    0 ≤ o.price.amount.value ∧
      (o.price.isPositive = true ↔ 1 / 200 ≤ listing.basePrice.moved bps.toInt) := by
  have hjitter := h.natAbs_jitter_lt
  have hoffset := hdrawn.offset
  have hwhole : Price.wholeBps = 10000 := rfl
  have hmax : Int64.maxValue.toInt = 9223372036854775807 := rfl
  exact Price.isPositive_jittered_iff hlisting.positive hlisting.scale (by omega) (by omega)
    hdrawn.price

/-- No order of validated settings with a catalog from a file has a price below zero. The price of an
order is above zero exactly if its listing's price was moved to half a cent or more before it was
rounded. So all are above zero where no offset takes a listing below half a cent, and where no
offset takes more than half of a price. -/
theorem orders_above_zero (s : Settings) (h : s.validate = .ok ())
    {symbols : List (String × Decimal)} (hcatalog : SettingsFile.catalog symbols = .ok s.catalog)
    (seed : UInt64) (count : Nat) :
    let orders := ((OrderFlow.ofSeed s.catalog s.shape seed).take count).1
    (∀ o, some o ∈ orders → 0 ≤ o.price.amount.value ∧
      ∃ listing ∈ s.catalog.listings, ∃ bps : Int64,
        bps.toInt.natAbs ≤ s.shape.maxJitter.toInt.natAbs ∧ o.symbol = listing.symbol ∧
          listing.basePrice.jittered bps = .ok o.price ∧
          (o.price.isPositive = true ↔ 1 / 200 ≤ listing.basePrice.moved bps.toInt)) ∧
      ((∀ listing ∈ s.catalog.listings,
          1 / 200 ≤ listing.basePrice.moved (-s.shape.maxJitter.toInt)) ∨ s.shape.maxJitter ≤ 5000 →
        ∀ o, some o ∈ orders → o.price.isPositive = true) := by
  intro orders
  have hvalid := (validate_eq_ok_iff s).1 h
  have hlistings := SettingsFile.isReference_of_catalog hcatalog
  refine ⟨fun o ho => ?_, fun hlarge o ho => ?_⟩
  · obtain ⟨listing, bps, hdrawn⟩ := OrderFlow.drawn_of_mem_take ho
    obtain ⟨hzero, hiff⟩ := hvalid.isPositive_iff hdrawn (hlistings listing hdrawn.listed)
    exact ⟨hzero, listing, hdrawn.listed, bps, hdrawn.offset, hdrawn.symbol, hdrawn.price, hiff⟩
  · obtain ⟨listing, bps, hdrawn⟩ := OrderFlow.drawn_of_mem_take ho
    have hlisting := hlistings listing hdrawn.listed
    have hoffset : bps.toInt.natAbs ≤ s.shape.maxJitter.toInt.natAbs := hdrawn.offset
    have hlow : 0 ≤ s.shape.maxJitter.toInt := Int64.le_iff_toInt_le.1 hvalid.jitter.1
    have hwhole : s.shape.maxJitter.toInt.natAbs < 10000 := hvalid.natAbs_jitter_lt
    rw [(hvalid.isPositive_iff hdrawn hlisting).2]
    rcases hlarge with hlarge | hhalf
    · have hzero : 0 ≤ listing.basePrice.amount.value := le_trans (by norm_num) hlisting.cent_le
      exact le_trans (hlarge listing hdrawn.listed)
        (Price.moved_le_moved hzero le_rfl (by omega) (by omega))
    · have hhalf' : s.shape.maxJitter.toInt ≤ 5000 := Int64.le_iff_toInt_le.1 hhalf
      exact hlisting.half_cent_le_moved (by omega)

/-- At 50.00 the widest offsets that validation admits reach down to half a cent. -/
theorem orders_above_zero_widest :
    let s : Settings :=
      { standard with
        shape := { maxJitter := 9999, minQuantity := 1, maxQuantity := 20 }
        catalog := ⟨[⟨⟨"X"⟩, .ofUInt64 50⟩]⟩ }
    let orders := ((OrderFlow.ofSeed s.catalog s.shape 15).take 2).1
    s.validate = .ok () ∧ SettingsFile.catalog [("X", .ofUInt64 50)] = .ok s.catalog ∧
      (∀ listing ∈ s.catalog.listings, listing.basePrice.moved (-9999) = 1 / 200) ∧
      orders.length = 2 ∧ none ∉ orders ∧
      ∀ o, some o ∈ orders → o.price.isPositive = true := by
  intro s orders
  have hvalid : s.validate = .ok () := by decide +kernel
  have hcatalog : SettingsFile.catalog [("X", .ofUInt64 50)] = .ok s.catalog := by decide +kernel
  have hmoved : ∀ listing ∈ s.catalog.listings, listing.basePrice.moved (-9999) = 1 / 200 := by
    decide +kernel
  refine ⟨hvalid, hcatalog, hmoved, by decide +kernel, by decide +kernel, ?_⟩
  exact (orders_above_zero s hvalid hcatalog 15 2).2 (.inl fun listing hl => (hmoved listing hl).ge)

/-- Settings that pass validation with a catalog from their file, and an order at zero. -/
theorem order_at_zero :
    ∃ s symbols o, ofText ("[general]\ntraders = 1\nseed = 14\n" ++
        "[session]\nduration_secs = 1\ninterval_secs = 2\nmax_jitter_bps = 9999\n" ++
        "[[symbols]]\nsymbol = \"X\"\nbase_price = \"0.01\"\n") = .ok s ∧
      s.validate = .ok () ∧ SettingsFile.catalog symbols = .ok s.catalog ∧
      (OrderFlow.ofSeed s.catalog s.shape 15).take 1 = ([some o], none) ∧
      o.price.isPositive = false ∧ o.price.text = "0.00" := by
  let cent : Decimal := ⟨false, 1, 2, by decide, by decide⟩
  let s : Settings :=
    { standard with
      traders := 1, duration := .ofMillis 1000, interval := .ofMillis 2000, seed := some 14
      shape := { maxJitter := 9999, minQuantity := 1, maxQuantity := 20 }
      catalog := ⟨[⟨⟨"X"⟩, ⟨cent⟩⟩]⟩ }
  let o : Order :=
    { symbol := ⟨"X"⟩, side := .buy, kind := .limit, price := ⟨⟨false, 0, 2, by decide, by decide⟩⟩
      quantity := ⟨8⟩ }
  refine ⟨s, [("X", cent)], o, ?_, ?_, ?_, ?_, ?_, ?_⟩
  all_goals decide +kernel

end Settings

end MarketLoad
