import MarketLoad.Proofs.Cents
import MarketLoad.Proofs.Command
import MarketLoad.Proofs.Order

/-!
# Commands read back from their lines

Fields make one line that is divided into the same fields again exactly if each of them is wire
safe (`isLineOf_iff`). What was made of wire-safe identities, a made price and a quantity above zero
comes back from its line up to the digits of the price (`Command.same_of_fields_eq`), and a text of
such lines is cut into them in one way only (`Command.lines_unambiguous`).
-/

namespace MarketLoad

open Text

/-! ### Lines of fields -/

/-- A text is one line, which colons divide into these fields. -/
structure IsLineOf (fields : List String) (line : String) : Prop where
  newline_last : line.toList.getLast? = some '\n'
  one_newline : line.toList.count '\n' = 1
  no_return : '\r' ∉ line.toList
  colons : line.toList.count ':' + 1 = fields.length
  divided : line.toList.dropLast.splitOn ':' = fields.map String.toList
  not_empty : "" ∉ fields

theorem count_intercalate {α : Type} [BEq α] [LawfulBEq α] (d : α) {parts : List (List α)}
    (h : parts ≠ []) :
    ([d].intercalate parts).count d + 1 = (parts.map (List.count d)).sum + parts.length := by
  induction parts with
  | nil => exact absurd rfl h
  | cons part parts ih =>
    cases parts with
    | nil => simp
    | cons part' parts =>
      have hrest := ih (List.cons_ne_nil _ _)
      rw [List.intercalate_cons_cons, List.count_append, List.count_append,
        List.count_singleton_self, List.map_cons, List.sum_cons, List.length_cons]
      omega

/-- Fields make a line that is divided into them if colons and line ends cannot be in them. -/
theorem isLineOf_iff {fields : List String} (hfields : fields ≠ []) :
    IsLineOf fields (":".intercalate fields ++ "\n") ↔ ∀ field ∈ fields, isWireSafe field = true := by
  have hline : (":".intercalate fields ++ "\n").toList =
      [':'].intercalate (fields.map String.toList) ++ ['\n'] := by
    rw [String.toList_append, toList_intercalate_colon]
    rfl
  have hparts : fields.map String.toList ≠ [] := fun h => hfields (List.map_eq_nil_iff.1 h)
  have hmem {c : Char} (hc : c ≠ ':') :
      c ∉ [':'].intercalate (fields.map String.toList) ↔ ∀ field ∈ fields, c ∉ field.toList := by
    simp [mem_intercalate hc]
  have hnewline : (":".intercalate fields ++ "\n").toList.count '\n' = 1 ↔
      ∀ field ∈ fields, '\n' ∉ field.toList := by
    rw [hline, List.count_append, List.count_singleton_self, ← hmem (by decide),
      ← List.count_eq_zero]
    omega
  have hreturn : '\r' ∉ (":".intercalate fields ++ "\n").toList ↔
      ∀ field ∈ fields, '\r' ∉ field.toList := by
    rw [hline, ← hmem (by decide)]
    simp
  have hcolon : (":".intercalate fields ++ "\n").toList.count ':' + 1 = fields.length ↔
      ∀ field ∈ fields, ':' ∉ field.toList := by
    have hcount := count_intercalate ':' hparts
    have hnone : List.count ':' ['\n'] = 0 := by decide
    rw [List.length_map] at hcount
    rw [hline, List.count_append, hnone, Nat.add_zero, hcount, Nat.add_eq_right,
      List.sum_eq_zero_iff_forall_eq_nat]
    simp [List.count_eq_zero]
  constructor
  · intro h field hfield
    refine isWireSafe_iff_not_mem.2 ⟨fun hempty => h.not_empty (hempty ▸ hfield), ?_, ?_, ?_⟩
    · exact hcolon.1 h.colons field hfield
    · exact hreturn.1 h.no_return field hfield
    · exact hnewline.1 h.one_newline field hfield
  · intro h
    have hsafe := fun field hfield => isWireSafe_iff_not_mem.1 (h field hfield)
    refine
      { newline_last := ?_
        one_newline := hnewline.2 fun field hfield => (hsafe field hfield).2.2.2
        no_return := hreturn.2 fun field hfield => (hsafe field hfield).2.2.1
        colons := hcolon.2 fun field hfield => (hsafe field hfield).2.1
        divided := ?_
        not_empty := fun hempty => (hsafe "" hempty).1 rfl }
    · rw [hline, List.getLast?_concat]
    · rw [hline, List.dropLast_concat]
      refine List.splitOn_intercalate ':' (fun part hpart => ?_) hparts
      obtain ⟨field, hfield, rfl⟩ := List.mem_map.1 hpart
      exact (hsafe field hfield).2.1

variable {fields : List String} {line : String}

theorem IsLineOf.eq_append (h : IsLineOf fields line) :
    line.toList = line.toList.dropLast ++ ['\n'] :=
  (List.dropLast_append_getLast? '\n' h.newline_last).symm

theorem IsLineOf.newline_not_mem (h : IsLineOf fields line) : '\n' ∉ line.toList.dropLast := by
  have hcount := h.one_newline
  rw [h.eq_append, List.count_append, List.count_singleton_self] at hcount
  exact List.count_eq_zero.1 (by omega)

/-! ### Commands -/

theorem Side.text_injective : Function.Injective Side.text := by
  intro side side' h
  cases side <;> cases side'
  case buy.buy | sell.sell => rfl
  all_goals exact absurd h (by decide)

theorem OrderKind.text_injective : Function.Injective OrderKind.text := by
  intro kind kind' h
  cases kind <;> cases kind'
  case limit.limit | market.market => rfl
  all_goals exact absurd h (by decide)

theorem Quantity.text_injective : Function.Injective Quantity.text := by
  intro q q' h
  have hunits := digits_injective (String.ofList_injective h)
  exact congrArg Quantity.mk (UInt32.toNat_inj.1 hunits)

theorem Quantity.ofUnits?_eq_some_iff {units : UInt32} {quantity : Quantity} :
    Quantity.ofUnits? units = some quantity ↔ 0 < units.toNat ∧ quantity = ⟨units⟩ := by
  rw [Quantity.ofUnits?, Option.ite_none_left_eq_some, Option.some_inj, eq_comm (a := quantity),
    Nat.pos_iff_ne_zero, ne_eq, ← UInt32.toNat_inj]
  rfl

namespace Command

/-- The commands that are made: each of their parts passed its check. -/
inductive IsMade : Command → Prop
  | register {name : String} {trader : Trader} (htrader : Trader.ofName? name = some trader) :
    IsMade (.register trader)
  | order {name ticker : String} {units : UInt32} {trader : Trader} {o : Order}
    (htrader : Trader.ofName? name = some trader)
    (hsymbol : Symbol.ofTicker? ticker = some o.symbol) (hprice : o.price.IsMade)
    (hquantity : Quantity.ofUnits? units = some o.quantity) : IsMade (.order trader o)

inductive Same : Command → Command → Prop
  | register (trader : Trader) : Same (.register trader) (.register trader)
  | order (trader : Trader) {o o' : Order} (h : o.Same o') : Same (.order trader o) (.order trader o')

/-- The lines of commands, one after the other. -/
def text (cs : List Command) : List Char := cs.flatMap (·.line.toList)

variable {c c' : Command} {cs cs' : List Command}

theorem fields_ne_nil (c : Command) : c.fields ≠ [] := by
  cases c <;> exact List.cons_ne_nil _ _

theorem isLineOf_line : IsLineOf c.fields c.line ↔ c.IsWireSafe := by
  rw [line, isLineOf_iff c.fields_ne_nil]
  refine ⟨fun h => ?_, isWireSafe_fields⟩
  cases c with
  | register trader => exact h trader.name (by simp [fields])
  | order trader o =>
    exact ⟨h trader.name (by simp [fields]), h o.symbol.ticker (by simp [fields])⟩

theorem IsMade.isWireSafe (h : c.IsMade) : c.IsWireSafe := by
  cases h with
  | register htrader =>
    obtain ⟨hname, rfl⟩ := Trader.ofName?_eq_some_iff.1 htrader
    exact hname
  | order htrader hsymbol =>
    obtain ⟨hname, rfl⟩ := Trader.ofName?_eq_some_iff.1 htrader
    obtain ⟨hticker, hsymbol⟩ := Symbol.ofTicker?_eq_some_iff.1 hsymbol
    exact ⟨hname, hsymbol ▸ hticker⟩

/-- Made commands with the same fields say the same. -/
theorem same_of_fields_eq (h : c.IsMade) (h' : c'.IsMade) (heq : c.fields = c'.fields) :
    c.Same c' := by
  have hword : "REGISTER" ≠ "ORDER" := by decide
  cases h with
  | @register _ trader =>
    cases h' with
    | @register _ trader' =>
      simp only [fields, List.cons.injEq, and_true, true_and] at heq
      obtain rfl : trader = trader' := congrArg Trader.mk heq
      exact .register trader
    | order => exact absurd (List.cons.inj heq).1 hword
  | @order _ _ _ trader o _ _ hprice =>
    cases h' with
    | register => exact absurd (List.cons.inj heq).1.symm hword
    | @order _ _ _ trader' o' _ _ hprice' =>
      simp only [fields, List.cons.injEq, and_true, true_and] at heq
      obtain ⟨htrader, hsymbol, hside, hkind, hamount, hunits⟩ := heq
      obtain rfl : trader = trader' := congrArg Trader.mk htrader
      have hwrites := hprice'.writesCents_text
      rw [← hamount] at hwrites
      exact .order trader
        { symbol := congrArg Symbol.mk hsymbol
          side := Side.text_injective hside
          kind := OrderKind.text_injective hkind
          price := Price.same_iff.2 (hprice.writesCents_text.unique hwrites)
          quantity := Quantity.text_injective hunits }

theorem same_of_dropLast_eq (h : c.IsMade) (h' : c'.IsMade)
    (heq : c.line.toList.dropLast = c'.line.toList.dropLast) : c.Same c' := by
  have hdivided := (isLineOf_line.2 h.isWireSafe).divided
  rw [heq, (isLineOf_line.2 h'.isWireSafe).divided] at hdivided
  have hinjective : Function.Injective String.toList := fun _ _ => String.toList_injective
  exact same_of_fields_eq h h' (hinjective.list_map hdivided).symm

theorem splitOn_text (h : ∀ c ∈ cs, c.IsWireSafe) :
    (text cs).splitOn '\n' = cs.map (·.line.toList.dropLast) ++ [[]] := by
  induction cs with
  | nil => rfl
  | cons c cs ih =>
    obtain ⟨hc, hcs⟩ := List.forall_mem_cons.1 h
    have hline := isLineOf_line.2 hc
    have htext : text (c :: cs) = c.line.toList.dropLast ++ '\n' :: text cs := by
      rw [text, List.flatMap_cons, hline.eq_append, List.dropLast_concat, List.append_assoc]
      rfl
    rw [htext, List.splitOn_append_cons_self_of_not_mem hline.newline_not_mem, ih hcs]
    rfl

/-- Texts of made commands are equal only if their commands say the same one by one. -/
theorem same_of_text_eq (h : ∀ c ∈ cs, c.IsMade) (h' : ∀ c ∈ cs', c.IsMade)
    (heq : text cs = text cs') : List.Forall₂ Same cs cs' := by
  have hbodies := splitOn_text fun c hc => (h c hc).isWireSafe
  rw [heq, splitOn_text fun c hc => (h' c hc).isWireSafe] at hbodies
  replace hbodies := List.append_cancel_right hbodies
  clear heq
  induction cs generalizing cs' with
  | nil =>
    rw [List.map_nil, List.map_eq_nil_iff] at hbodies
    rw [hbodies]
    exact .nil
  | cons c cs ih =>
    cases cs' with
    | nil => cases hbodies
    | cons c' cs' =>
      obtain ⟨hc, hcs⟩ := List.forall_mem_cons.1 h
      obtain ⟨hc', hcs'⟩ := List.forall_mem_cons.1 h'
      rw [List.map_cons, List.map_cons, List.cons.injEq] at hbodies
      exact .cons (same_of_dropLast_eq hc hc' hbodies.1.symm) (ih hcs hcs' hbodies.2)

/-- An order is one line of seven fields from which all that it says can be read, and a text of
lines is cut into commands in one way only. -/
theorem lines_unambiguous (h : ∀ c ∈ cs, c.IsMade) :
    (∀ trader o, order trader o ∈ cs →
      IsLineOf ["ORDER", trader.name, o.symbol.ticker, o.side.text, o.kind.text, o.price.text,
        o.quantity.text] (order trader o).line ∧
      WritesCents o.price.text.toList o.price.amount.value ∧
      WritesCount o.quantity.text.toList o.quantity.units.toNat) ∧
    (∀ c ∈ cs, ∀ c' ∈ cs, c.line = c'.line → c.Same c') ∧
    (text cs).splitOn '\n' = cs.map (·.line.toList.dropLast) ++ [[]] ∧
    ∀ cs', (∀ c ∈ cs', c.IsMade) → text cs' = text cs → List.Forall₂ Same cs' cs := by
  refine ⟨fun trader o ho => ?_, fun c hc c' hc' heq => ?_, ?_, fun cs' h' heq => ?_⟩
  · have hmade := h _ ho
    refine ⟨isLineOf_line.2 hmade.isWireSafe, ?_⟩
    cases hmade with
    | order _ _ hprice hquantity =>
      obtain ⟨hunits, hquantity⟩ := Quantity.ofUnits?_eq_some_iff.1 hquantity
      refine ⟨hprice.writesCents_text, ?_⟩
      rw [Quantity.text, String.toList_ofList, hquantity]
      exact writesCount_digits hunits
  · exact same_of_dropLast_eq (h c hc) (h c' hc') (by rw [heq])
  · exact splitOn_text fun c hc => (h c hc).isWireSafe
  · exact same_of_text_eq h' h heq

/-- The greatest price with the greatest quantity, a price below zero with one fraction digit, and
one that was moved. -/
theorem lines_unambiguous_three :
    let trader : Trader := ⟨"trader 商"⟩
    let greatest : Order :=
      ⟨⟨"X"⟩, .buy, .limit, .ofDecimal ⟨false, 79228162514264337593543950335, 0, by decide, by decide⟩,
        ⟨4294967295⟩⟩
    let below : Order := ⟨⟨"Ü.B"⟩, .sell, .market, ⟨⟨true, 5, 1, by decide, by decide⟩⟩, ⟨1⟩⟩
    let moved : Order := ⟨⟨"X"⟩, .buy, .limit, ⟨⟨false, 14252, 2, by decide, by decide⟩⟩, ⟨20⟩⟩
    let cs := [register trader, order trader greatest, order trader below, order trader moved]
    (∀ c ∈ cs, c.IsMade) ∧
      cs.map (·.line) =
        ["REGISTER:trader 商\n",
          "ORDER:trader 商:X:BUY:LIMIT:79228162514264337593543950335.00:4294967295\n",
          "ORDER:trader 商:Ü.B:SELL:MARKET:-0.50:1\n", "ORDER:trader 商:X:BUY:LIMIT:142.52:20\n"] ∧
      WritesCents below.price.text.toList below.price.amount.value ∧
      ∀ cs', (∀ c ∈ cs', c.IsMade) → text cs' = text cs → List.Forall₂ Same cs' cs := by
  intro trader greatest below moved cs
  have hmade : ∀ c ∈ cs, c.IsMade := by
    have hbelow : Price.ofText? "-0.5" = some below.price := by decide +kernel
    have hmoved : (Price.ofUInt64 150).jittered (-499) = .ok moved.price := by decide +kernel
    have htrader : Trader.ofName? "trader 商" = some trader := by decide +kernel
    have hx : Symbol.ofTicker? "X" = some ⟨"X"⟩ := by decide +kernel
    have hb : Symbol.ofTicker? "Ü.B" = some ⟨"Ü.B"⟩ := by decide +kernel
    have hunits {units : UInt32} (h : 0 < units.toNat) : Quantity.ofUnits? units = some ⟨units⟩ :=
      Quantity.ofUnits?_eq_some_iff.2 ⟨h, rfl⟩
    simp only [cs, List.forall_mem_cons]
    exact ⟨.register htrader, .order htrader hx (.ofDecimal _) (hunits (by decide)),
      .order htrader hb (.ofText hbelow) (hunits (by decide)),
      .order htrader hx (.jittered hmoved) (hunits (by decide)),
      fun _ hm => absurd hm List.not_mem_nil⟩
  obtain ⟨horders, -, -, hunique⟩ := lines_unambiguous hmade
  refine ⟨hmade, by decide +kernel, ?_, hunique⟩
  exact (horders trader below (by simp [cs])).2.1

end Command

end MarketLoad
