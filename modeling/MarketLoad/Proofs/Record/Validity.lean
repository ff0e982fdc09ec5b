import MarketLoad.Proofs.Record.RoundTrip
import MarketLoad.Proofs.Wire

/-!
# Records of values that were not made

Reading a record checks nothing: each name, price and number of units is read back from the text of
its record, whether it could have been made or not (`readUnchecked`). The line of an order that was
read is therefore what it should be only if readers that make their values (`madeTrader?`,
`madeOrder?`) would have accepted the same texts (`line_of_records_iff`).
-/

namespace MarketLoad

/-- Each value is read from some text, up to a change. -/
def ReadsAll (α : Type) [Recorded α] (change : α → α) : Prop :=
  ∀ a : α, ofRecordText? (recordText a) = some (change a)

theorem ReadsAll.of_read {α : Type} [Recorded α] [Spelled α] {change : α → α}
    (h : ∀ a : α, ofRecord? (toRecord a) = some (change a)) : ReadsAll α change :=
  fun a => (ofRecordText?_recordText a).trans (h a)

/-- No reader of a type that holds names, prices or quantities refuses any of its values. A zero price
loses its sign. -/
structure ReadUnchecked : Prop where
  traders : ReadsAll Trader id
  symbols : ReadsAll Symbol id
  quantities : ReadsAll Quantity id
  prices : ReadsAll Price Price.plain
  orders : ReadsAll Order Order.plain
  catalogs : ReadsAll Catalog Catalog.plain
  transcripts : ReadsAll Transcript id
  outcomes : ReadsAll Outcome id

theorem readUnchecked : ReadUnchecked where
  traders := .of_read Faithful.read
  symbols := .of_read Faithful.read
  quantities := .of_read Faithful.read
  prices := .of_read ofRecord?_toRecord_price
  orders := .of_read ofRecord?_toRecord_order
  catalogs := .of_read ofRecord?_toRecord_catalog
  transcripts := .of_read Faithful.read
  outcomes := .of_read Faithful.read

/-- Reads a trader and makes it of its name. -/
def madeTrader? (text : String) : Option Trader :=
  (ofRecordText? text : Option Trader).bind fun trader => Trader.ofName? trader.name

/-- Reads an order and makes its parts of what was read. -/
def madeOrder? (text : String) : Option Order := do
  let o ← (ofRecordText? text : Option Order)
  let symbol ← Symbol.ofTicker? o.symbol.ticker
  let quantity ← Quantity.ofUnits? o.quantity.units
  return { o with symbol, price := .ofDecimal o.price.amount, quantity }

variable {traderText orderText : String} {trader : Trader} {o : Order}

theorem madeTrader?_eq_some_iff (h : ofRecordText? traderText = some trader) :
    madeTrader? traderText = some trader ↔ isWireSafe trader.name = true := by
  rw [madeTrader?, h, Option.bind_some, Trader.ofName?_eq_some_iff, and_iff_left rfl]

theorem isSome_madeOrder?_iff (h : ofRecordText? orderText = some o) :
    (madeOrder? orderText).isSome = true ↔
      isWireSafe o.symbol.ticker = true ∧ 0 < o.quantity.units.toNat := by
  simp only [madeOrder?, h, Option.bind_eq_bind, Option.bind_some, Option.isSome_iff_exists,
    Option.bind_eq_some_iff, Symbol.ofTicker?_eq_some_iff, Quantity.ofUnits?_eq_some_iff]
  constructor
  · rintro ⟨_, _, ⟨hsymbol, _⟩, _, ⟨hunits, _⟩, _⟩
    exact ⟨hsymbol, hunits⟩
  · rintro ⟨hsymbol, hunits⟩
    exact ⟨_, _, ⟨hsymbol, rfl⟩, _, ⟨hunits, rfl⟩, rfl⟩

/-- Reading checks nothing. So a price that is read has more than two places unless nothing is left
after its cents, and an order that is read has a line of seven fields with the rounded price and a
quantity above zero exactly if the texts are those of values that could have been made and less than
half a cent is cut off the price. -/
theorem line_of_records_iff (htrader : ofRecordText? traderText = some trader)
    (horder : ofRecordText? orderText = some o) :
    let left := o.price.amount.coefficient % tenTo (o.price.amount.scale - 2)
    ReadUnchecked ∧
    ((Price.ofDecimal o.price.amount).Same o.price ↔ left = 0) ∧
    WritesCents o.price.text.toList o.price.amount.cut ∧
    (IsLineOf ["ORDER", trader.name, o.symbol.ticker, o.side.text, o.kind.text, o.price.text,
          o.quantity.text] (Command.order trader o).line ∧
        WritesCents o.price.text.toList (Price.ofDecimal o.price.amount).amount.value ∧
        0 < Text.ofDigits o.quantity.text.toList ↔
      madeTrader? traderText = some trader ∧ (madeOrder? orderText).isSome = true ∧
        2 * left < tenTo (o.price.amount.scale - 2)) := by
  intro left
  have hcut := o.price.writesCents_text
  have hline := Command.isLineOf_line (c := .order trader o)
  have hprice : WritesCents o.price.text.toList (Price.ofDecimal o.price.amount).amount.value ↔
      o.price.amount.cut = (o.price.amount.roundPlaces 2).value :=
    ⟨fun hround => hcut.unique hround, fun heq => heq ▸ hcut⟩
  have hunits : Text.ofDigits o.quantity.text.toList = o.quantity.units.toNat := by
    rw [Quantity.text, String.toList_ofList, Text.ofDigits_digits]
  refine ⟨readUnchecked, Price.same_iff.trans o.price.amount.value_roundPlaces_eq_iff, hcut, ?_⟩
  rw [madeTrader?_eq_some_iff htrader, isSome_madeOrder?_iff horder, hprice, hunits,
    ← o.price.amount.cut_eq_roundPlaces_iff]
  constructor
  · rintro ⟨hfields, hround, hpositive⟩
    obtain ⟨hname, hticker⟩ := hline.1 hfields
    exact ⟨hname, ⟨hticker, hpositive⟩, hround⟩
  · rintro ⟨hname, ⟨hticker, hpositive⟩, hround⟩
    exact ⟨hline.2 ⟨hname, hticker⟩, hround, hpositive⟩

/-- Four tenths of a cent are cut off the price of an order that is valid otherwise. -/
theorem line_of_records_iff_cut :
    let orderText := "\x7b\"symbol\":\"AAPL\",\"side\":\"BUY\",\"kind\":\"LIMIT\"," ++
      "\"price\":\"150.504\",\"quantity\":3\x7d"
    ∃ trader o, ofRecordText? "\"trader 1\"" = some trader ∧ ofRecordText? orderText = some o ∧
      (Command.order trader o).line = "ORDER:trader 1:AAPL:BUY:LIMIT:150.50:3\n" ∧
      ¬ (Price.ofDecimal o.price.amount).Same o.price ∧
      IsLineOf ["ORDER", trader.name, o.symbol.ticker, o.side.text, o.kind.text, o.price.text,
        o.quantity.text] (Command.order trader o).line ∧
      WritesCents o.price.text.toList (Price.ofDecimal o.price.amount).amount.value := by
  intro orderText
  let trader : Trader := ⟨"trader 1"⟩
  let o : Order := ⟨⟨"AAPL"⟩, .buy, .limit, ⟨⟨false, 150504, 3, by decide, by decide⟩⟩, ⟨3⟩⟩
  have htrader : ofRecordText? "\"trader 1\"" = some trader := by decide +kernel
  have horder : ofRecordText? orderText = some o := by decide +kernel
  obtain ⟨-, hsame, -, hiff⟩ := line_of_records_iff htrader horder
  obtain ⟨hline, hround, -⟩ := hiff.2 (by decide +kernel)
  exact ⟨trader, o, htrader, horder, by decide +kernel, fun h => absurd (hsame.1 h) (by decide),
    hline, hround⟩

/-- A name with a colon is read, a price of 1.999, which is cut off to 1.99, and no units at all. -/
theorem reading_admits_invalid :
    let orderText := "\x7b\"symbol\":\"A:B\",\"side\":\"BUY\",\"kind\":\"LIMIT\"," ++
      "\"price\":\"1.999\",\"quantity\":0\x7d"
    (∃ trader : Trader, ofRecordText? "\"a:b\"" = some trader ∧ Trader.ofName? trader.name = none) ∧
    ∃ o : Order, ofRecordText? orderText = some o ∧ Symbol.ofTicker? o.symbol.ticker = none ∧
      2 < o.price.amount.scale ∧ Quantity.ofUnits? o.quantity.units = none ∧
      (Command.order ⟨"t"⟩ o).line = "ORDER:t:A:B:BUY:LIMIT:1.99:0\n" ∧
      (Price.ofDecimal o.price.amount).text = "2.00" := by
  intro orderText
  refine ⟨⟨⟨"a:b"⟩, by decide +kernel, by decide +kernel⟩,
    ⟨⟨"A:B"⟩, .buy, .limit, ⟨⟨false, 1999, 3, by decide, by decide⟩⟩, ⟨0⟩⟩, ?_⟩
  decide +kernel

end MarketLoad
