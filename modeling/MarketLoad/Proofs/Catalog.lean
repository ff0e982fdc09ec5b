import MarketLoad.Proofs.Identity
import MarketLoad.Settings.File

/-!
# Catalogs of pairs

A pair of a ticker and a price makes a listing if the ticker is wire safe and the price above zero
(`Catalog.listing?_eq_some_iff`). A catalog of pairs passes over the others, and a settings file is
refused for the first of them, so both come to the same catalog where nothing is passed over
(`SettingsFile.catalogs_agree`). The price of a symbol is that of its first pair with a price above
zero (`Catalog.basePrice?_ofPairs`).
-/

namespace MarketLoad

/-- A check of all elements keeps what a choice among them keeps, or it fails at the first element
that the choice passes over. -/
theorem mapM_eq_filterMap {α β ε : Type} {check : α → Except ε β} {choose : α → Option β}
    {blame : α → ε} (hcheck : ∀ a, check a = (choose a).elim (.error (blame a)) .ok) (as : List α) :
    as.mapM check = (as.find? fun a => (choose a).isNone).elim (.ok (as.filterMap choose))
      fun a => .error (blame a) := by
  induction as with
  | nil => rfl
  | cons a as ih =>
    rw [List.mapM_cons, hcheck, ih]
    cases hchoose : choose a with
    | none =>
      rw [List.find?_cons_of_pos]
      · rfl
      · exact Option.isNone_iff_eq_none.2 hchoose
    | some b =>
      rw [List.find?_cons_of_neg, List.filterMap_cons_some hchoose]
      · cases as.find? fun a => (choose a).isNone <;> rfl
      · rw [hchoose]
        exact Bool.false_ne_true

/-! ### Listings -/

namespace Catalog

theorem listing?_eq_some_iff {ticker : String} {price : Price} {l : Listing} :
    listing? ticker price = some l ↔
      price.isPositive = true ∧ isWireSafe ticker = true ∧ l = ⟨⟨ticker⟩, price⟩ := by
  rw [listing?, Option.ite_none_right_eq_some, Option.map_eq_some_iff]
  refine and_congr_right fun _ => ⟨fun ⟨symbol, hsymbol, hl⟩ => ?_, fun ⟨hsafe, hl⟩ => ?_⟩
  · obtain ⟨hsafe, rfl⟩ := Symbol.ofTicker?_eq_some_iff.1 hsymbol
    exact ⟨hsafe, hl.symm⟩
  · exact ⟨⟨ticker⟩, Symbol.ofTicker?_eq_some_iff.2 ⟨hsafe, rfl⟩, hl.symm⟩

/-- The price of a symbol is that of its first pair with a price above zero. A symbol that no command
can carry is in no catalog of pairs. -/
theorem basePrice?_ofPairs (pairs : List (String × Price)) (symbol : Symbol) :
    (ofPairs pairs).basePrice? symbol =
      if isWireSafe symbol.ticker then
        (pairs.find? fun p => p.1 == symbol.ticker && p.2.isPositive).map (·.2)
      else none := by
  induction pairs with
  | nil => split <;> rfl
  | cons p pairs ih =>
    obtain ⟨ticker, price⟩ := p
    cases hlisting : listing? ticker price with
    | none =>
      have hskip : ofPairs ((ticker, price) :: pairs) = ofPairs pairs :=
        congrArg Catalog.mk (List.filterMap_cons_none hlisting)
      rw [hskip, ih]
      refine if_ctx_congr Iff.rfl (fun hsafe => ?_) fun _ => rfl
      rw [List.find?_cons_of_neg]
      intro hpair
      obtain ⟨hticker, hpositive⟩ := Bool.and_eq_true_iff.1 hpair
      obtain rfl := eq_of_beq hticker
      rw [listing?_eq_some_iff.2 ⟨hpositive, hsafe, rfl⟩] at hlisting
      cases hlisting
    | some l =>
      obtain ⟨hpositive, hsafe, rfl⟩ := listing?_eq_some_iff.1 hlisting
      have hkeep : (ofPairs ((ticker, price) :: pairs)).listings =
          ⟨⟨ticker⟩, price⟩ :: (ofPairs pairs).listings :=
        List.filterMap_cons_some (f := fun p : String × Price => listing? p.1 p.2)
          (a := (ticker, price)) hlisting
      rw [basePrice?, hkeep]
      by_cases hticker : ticker = symbol.ticker
      · subst hticker
        rw [List.find?_cons_of_pos, if_pos hsafe, List.find?_cons_of_pos]
        · rfl
        · rw [beq_self_eq_true, hpositive]
          rfl
        · exact beq_self_eq_true symbol
      · rw [List.find?_cons_of_neg, List.find?_cons_of_neg]
        · exact ih
        · exact fun h => hticker (eq_of_beq (Bool.and_eq_true_iff.1 h).1)
        · exact fun h => hticker (congrArg Symbol.ticker (eq_of_beq h))

end Catalog

/-! ### Settings files -/

namespace SettingsFile

/-- The symbols of a settings file with their prices rounded. -/
def rounded (symbols : List (String × Decimal)) : List (String × Price) :=
  symbols.map fun s => (s.1, .ofDecimal s.2)

/-- What is wrong with a symbol that makes no listing. -/
def misfit (ticker : String) : BadSetting :=
  if isWireSafe ticker then .basePrice ⟨ticker⟩ else .symbol ticker

/-- A settings file checks the ticker first and a catalog of pairs the price; they keep the same. -/
theorem listing_eq (ticker : String) (price : Decimal) :
    listing ticker price =
      (Catalog.listing? ticker (.ofDecimal price)).elim (.error (misfit ticker)) .ok := by
  rw [listing, misfit, Catalog.listing?, Symbol.ofTicker?]
  cases isWireSafe ticker <;> cases hpositive : (Price.ofDecimal price).isPositive <;>
    simp [hpositive]

theorem ofPairs_rounded (symbols : List (String × Decimal)) :
    Catalog.ofPairs (rounded symbols) =
      ⟨symbols.filterMap fun s => Catalog.listing? s.1 (.ofDecimal s.2)⟩ :=
  congrArg Catalog.mk List.filterMap_map

theorem size_rounded_eq_iff (symbols : List (String × Decimal)) :
    (Catalog.ofPairs (rounded symbols)).size = symbols.length ↔
      ∀ s ∈ symbols, (Catalog.listing? s.1 (.ofDecimal s.2)).isSome = true := by
  rw [ofPairs_rounded]
  exact List.filterMap_length_eq_length

/-- The symbols of a settings file make the catalog of their pairs, or they are refused for the first
pair that this catalog passes over. -/
theorem catalog_eq {symbols : List (String × Decimal)} (hsymbols : symbols ≠ []) :
    catalog symbols =
      (symbols.find? fun s => (Catalog.listing? s.1 (.ofDecimal s.2)).isNone).elim
        (.ok (.ofPairs (rounded symbols))) fun s => .error (misfit s.1) := by
  have hsome : symbols.isEmpty = false := List.isEmpty_eq_false_iff.2 hsymbols
  have hall := mapM_eq_filterMap (fun s : String × Decimal => listing_eq s.1 s.2) symbols
  rw [catalog, hsome, ofPairs_rounded]
  refine (congrArg (Except.map Catalog.mk) hall).trans ?_
  cases symbols.find? fun s => (Catalog.listing? s.1 (.ofDecimal s.2)).isNone <;> rfl

/-- With durations that are spans, a settings file gets the catalog of its pairs or it is refused for
the first of them that this catalog passes over. -/
theorem settings_cases {f : SettingsFile} {duration interval : Span} (hsymbols : f.symbols ≠ [])
    (hduration : Span.ofSeconds f.duration = .ok duration)
    (hinterval : Span.ofSeconds f.interval = .ok interval) :
    ((Catalog.ofPairs (rounded f.symbols)).size = f.symbols.length ∧
        ∃ s, f.settings = .ok s ∧ s.catalog = .ofPairs (rounded f.symbols)) ∨
      ((Catalog.ofPairs (rounded f.symbols)).size ≠ f.symbols.length ∧ ∃ ticker price,
        f.symbols.find? (fun s => (Catalog.listing? s.1 (.ofDecimal s.2)).isNone) =
            some (ticker, price) ∧
          f.settings = .error (.invalid (misfit ticker))) := by
  rw [settings, catalog_eq hsymbols, hduration, hinterval, ne_eq, size_rounded_eq_iff]
  cases hfind : f.symbols.find? fun s => (Catalog.listing? s.1 (.ofDecimal s.2)).isNone with
  | none =>
    refine .inl ⟨fun p hp => ?_, _, rfl, rfl⟩
    exact Option.isSome_iff_ne_none.2 fun h =>
      List.find?_eq_none.1 hfind p hp (Option.isNone_iff_eq_none.2 h)
  | some p =>
    refine .inr ⟨fun hkept => ?_, p.1, p.2, rfl, rfl⟩
    have hmissing : (Catalog.listing? p.1 (.ofDecimal p.2)).isNone = true :=
      (List.find?_eq_some_iff_append.1 hfind).1
    have hp := hkept p (List.mem_of_find?_eq_some hfind)
    rw [Option.isNone_iff_eq_none.1 hmissing] at hp
    cases hp

/-- The symbols of a settings file, if there are any, make the catalog of their pairs if none of them
is passed over, and otherwise the file is refused for the first of these. The catalog of the pairs
has the price of a symbol from its first pair with a price that stays above zero when rounded. -/
theorem catalogs_agree (f : SettingsFile) :
    (∀ duration interval, f.symbols ≠ [] → Span.ofSeconds f.duration = .ok duration →
      Span.ofSeconds f.interval = .ok interval →
        ((∃ s, f.settings = .ok s) ↔
          (Catalog.ofPairs (rounded f.symbols)).size = f.symbols.length) ∧
        (∀ s, f.settings = .ok s → s.catalog = .ofPairs (rounded f.symbols)) ∧
        ∀ e, f.settings = .error e → ∃ ticker price,
          f.symbols.find? (fun s => (Catalog.listing? s.1 (.ofDecimal s.2)).isNone) =
            some (ticker, price) ∧
          e = .invalid (if isWireSafe ticker then .basePrice ⟨ticker⟩ else .symbol ticker)) ∧
    ∀ symbol, (Catalog.ofPairs (rounded f.symbols)).basePrice? symbol =
      if isWireSafe symbol.ticker then
        (f.symbols.find? fun s =>
          s.1 == symbol.ticker && (Price.ofDecimal s.2).isPositive).map fun s => .ofDecimal s.2
      else none := by
  refine ⟨fun duration interval hsymbols hduration hinterval => ?_, fun symbol => ?_⟩
  · obtain ⟨hsize, s, hs, hcatalog⟩ | ⟨hsize, ticker, price, hfind, hfails⟩ :=
      settings_cases hsymbols hduration hinterval
    · rw [hs]
      refine ⟨iff_of_true ⟨s, rfl⟩ hsize, fun s' hs' => ?_, nofun⟩
      obtain rfl := Except.ok.inj hs'
      exact hcatalog
    · rw [hfails]
      refine ⟨iff_of_false nofun hsize, nofun, fun e he => ⟨ticker, price, hfind, ?_⟩⟩
      exact (Except.error.inj he).symm
  · rw [Catalog.basePrice?_ofPairs, rounded, List.find?_map, Option.map_map]
    rfl

/-- A settings file with these symbols that leaves the rest to the standard settings. -/
def ofSymbols (symbols : List (String × Decimal)) : SettingsFile :=
  let s := Settings.standard
  { host := s.endpoint.host, port := s.endpoint.port, traders := s.traders, stem := s.stem
    limit := s.limit, seed := s.seed, logLevel := s.logLevel, duration := .ofNat 60
    interval := .ofNat 2, shape := s.shape, timeouts := s.timeouts, symbols }

/-- A symbol whose first price rounds to zero has the price of its next pair. The file is refused for
the first pair of this symbol, ahead of a ticker that no command can carry. -/
theorem catalogs_agree_mixed :
    let f := ofSymbols [("AAPL", .ofUInt64 150), ("X", ⟨false, 4, 3, by decide, by decide⟩),
      ("A:B", .ofUInt64 5), ("X", .ofUInt64 7), ("X", .ofUInt64 8)]
    let c := Catalog.ofPairs (rounded f.symbols)
    f.symbols ≠ [] ∧ Span.ofSeconds f.duration = .ok (.ofMillis 60000) ∧
      Span.ofSeconds f.interval = .ok (.ofMillis 2000) ∧
      f.settings = .error (.invalid (.basePrice ⟨"X"⟩)) ∧ c.size = 3 ∧
      c.basePrice? ⟨"X"⟩ = some (.ofUInt64 7) ∧ c.basePrice? ⟨"A:B"⟩ = none := by
  intro f c
  have hduration : Span.ofSeconds f.duration = .ok (.ofMillis 60000) := by decide +kernel
  have hinterval : Span.ofSeconds f.interval = .ok (.ofMillis 2000) := by decide +kernel
  obtain ⟨haccepts, -, hrefuses⟩ := (catalogs_agree f).1 _ _ nofun hduration hinterval
  have hsize : c.size = 3 := by decide +kernel
  cases hs : f.settings with
  | ok s =>
    have hall : c.size = 5 := haccepts.1 ⟨s, hs⟩
    rw [hsize] at hall
    cases hall
  | error e =>
    obtain ⟨ticker, price, hfind, rfl⟩ := hrefuses e hs
    have hfirst : f.symbols.find? (fun s => (Catalog.listing? s.1 (.ofDecimal s.2)).isNone) =
      some ("X", ⟨false, 4, 3, by decide, by decide⟩) := by decide +kernel
    obtain ⟨rfl, rfl⟩ := Prod.mk.inj (Option.some.inj (hfirst.symm.trans hfind))
    refine ⟨nofun, hduration, hinterval, by decide, hsize, ?_, ?_⟩
    · exact ((catalogs_agree f).2 ⟨"X"⟩).trans (by decide +kernel)
    · exact ((catalogs_agree f).2 ⟨"A:B"⟩).trans (by decide +kernel)

end SettingsFile

end MarketLoad
