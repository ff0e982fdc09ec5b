import MarketLoad.Proofs.Script
import MarketLoad.Proofs.Session.Wire
import MarketLoad.Run.Result

/-!
# Commands keep their lines

A session and a script put commands on their connection, one after the other, each from its start on
and as far as the server takes it (`Connection.Took`). The lines of the stream are the commands that
got across in full exactly if none of these follows a command that was cut short, and then a session
counts as many orders as there are order lines (`complete_lines_are_commands`).
-/

namespace MarketLoad

namespace Venue

open Delivery

variable {c : Connection} {ds : List Delivery}

/-- A connection took what got across of some commands, and nothing else. Its lines are the commands
that got across in full exactly if none of these follows a command that was cut short, and where the
server makes no further room nothing follows that one. -/
structure Connection.Took (c : Connection) (ds : List Delivery) : Prop where
  stream : c.stream = carriedAll ds
  cut : Lines.cut c.stream = (c.lines.map (·.line), c.unfinished)
  lines : c.lines.map (·.line) = (ds.filter (·.isWhole)).map (·.command.body) ↔ Unmerged ds
  unfinished : Apart ds → c.unfinished = [] ∨ ∃ d ∈ ds, d.IsPart ∧ c.unfinished = d.carried
  apart : c.peer.refills = [] → Apart ds

/-- A connection that was new takes what a client delivers. -/
theorem Link.Carries.took {l l' : Link} {peer : Peer} (h : Carries l ds l')
    (hopening : l.connection = .opening peer l.now) (hsafe : ∀ d ∈ ds, d.command.IsWireSafe) :
    l'.connection.Took ds ∧ l'.connection.peer = peer := by
  have hpeer : l'.connection.peer = peer := h.peer.trans (congrArg _ hopening)
  have hstream : l'.connection.stream = carriedAll ds := by
    rw [h.stream, hopening]
    rfl
  have hcut := Connection.cut_stream (h.isCut (hopening ▸ .opening peer l.now))
  have hcut' : Lines.cut (carriedAll ds) = _ := hstream ▸ hcut
  refine ⟨⟨hstream, hcut, ?_, fun hapart => ?_, fun hrefills => ?_⟩, hpeer⟩
  · have hlines := lines_carriedAll_iff hsafe
    rwa [hcut'] at hlines
  · have hleft := unfinished_carriedAll hsafe hapart
    rwa [hcut'] at hleft
  · rw [h.peer] at hrefills
    exact (h.apart hrefills).1

/-- As many of its lines are orders as orders got across in full. -/
theorem Connection.Took.countP_isOrderLine (h : c.Took ds) (hunmerged : Unmerged ds) :
    c.lines.countP (Command.isOrderLine ·.line) =
      ds.countP fun d => d.command.isOrder && d.isWhole := by
  have hlines : (c.lines.map (·.line)).countP Command.isOrderLine =
      c.lines.countP (Command.isOrderLine ·.line) := List.countP_map
  rw [← hlines, h.lines.2 hunmerged, List.countP_map, List.countP_filter]
  refine List.countP_congr fun d _ => ?_
  rw [Function.comp_apply, Command.isOrderLine_body]

end Venue

open Venue

/-! ### Sessions -/

theorem Trading.IsOrderOf.isOrder {trader : Trader} {catalog : Catalog} {command : Command}
    (h : IsOrderOf trader catalog command) : command.isOrder = true := by
  obtain ⟨o, rfl, -⟩ := h
  rfl

theorem Trading.IsOrderOf.isWireSafe {trader : Trader} {catalog : Catalog} {command : Command}
    (h : IsOrderOf trader catalog command) (htrader : MarketLoad.isWireSafe trader.name = true)
    (hsymbols : ∀ listing ∈ catalog.listings,
      MarketLoad.isWireSafe listing.symbol.ticker = true) : command.IsWireSafe := by
  obtain ⟨o, rfl, listing, hlisting, hsymbol⟩ := h
  exact ⟨htrader, hsymbol ▸ hsymbols listing hlisting⟩

/-- What the server of a session takes: the registration, and the orders of the cycles, each in full
if it counts as sent. -/
theorem Session.exists_took {start : Nat} {s : SessionSettings} {peer : Peer} {conn : Connection}
    (htrader : isWireSafe s.trader.name = true)
    (hsymbols : ∀ listing ∈ s.catalog.listings, isWireSafe listing.symbol.ticker = true)
    (h : (course start s peer).connection = some conn) :
    ∃ (registration : Delivery) (orders : List Delivery),
      registration.command = .register s.trader ∧
      orders.map (fun d => (d.command, d.isWhole)) =
        Trading.commands (course start s peer).cycles ∧
      conn.Took (registration :: orders) ∧ conn.peer = peer ∧
      ∀ o, (course start s peer).result = .ok o →
        o.sent.toNat = orders.countP (·.isWhole) ∧
        (Delivery.Unmerged (registration :: orders) →
          conn.lines.countP (Command.isOrderLine ·.line) = o.sent.toNat) := by
  obtain ⟨delay, -, hcourse⟩ := course_connected h
  rw [hcourse] at h ⊢
  obtain ⟨registration, orders, l', hregistration, rfl, hcarries, hcommands, horders, hsent⟩ :=
    exists_delivers_connected start s _ h
  have hsafe : ∀ d ∈ registration :: orders, d.command.IsWireSafe := by
    refine List.forall_mem_cons.2 ⟨?_, fun d hd => (horders d hd).isWireSafe htrader hsymbols⟩
    rw [hregistration]
    exact htrader
  obtain ⟨htook, hpeer⟩ := hcarries.took rfl hsafe
  refine ⟨registration, orders, hregistration, hcommands, htook, hpeer, fun o ho => ?_⟩
  refine ⟨hsent o ho, fun hunmerged => ?_⟩
  have hnot : (registration.command.isOrder && registration.isWhole) = false := by
    rw [hregistration]
    rfl
  rw [htook.countP_isOrderLine hunmerged, List.countP_cons, hnot, hsent o ho]
  refine List.countP_congr fun d hd => ?_
  rw [(horders d hd).isOrder, Bool.true_and]

/-! ### Scripts -/

/-- What the server of a script takes: the registration and the orders, as far as the script gets. -/
theorem Script.exists_took {endpoint : Endpoint} {trader : Trader} {orders : List Order}
    {timing : ScriptTiming} {peer : Peer} {conn : Connection}
    (htrader : isWireSafe trader.name = true)
    (hsymbols : ∀ order ∈ orders, isWireSafe order.symbol.ticker = true)
    (h : (course endpoint trader orders timing peer).connection = some conn) :
    ∃ ds : List Delivery,
      ds.map (·.command) <+: .register trader :: orders.map (.order trader) ∧
      conn.Took ds ∧ conn.peer = peer := by
  obtain ⟨fault, -, hcourse⟩ | ⟨deadline, -, ⟨time, failure, -, hcourse⟩ |
    ⟨time, text, -, hcourse⟩ | ⟨l, result, l', hconnect, hconnected, hcourse⟩⟩ :=
    course_cases endpoint trader orders timing peer
  · rw [hcourse] at h; cases h
  · rw [hcourse] at h; cases h
  · rw [hcourse] at h; cases h
  · obtain ⟨ds, hprefix, hcarries⟩ := exists_deliveries_connected timing trader orders l
    rw [hconnected] at hcarries
    rw [hcourse] at h
    obtain rfl := Option.some.inj h
    obtain ⟨delay, -, -, -, rfl⟩ := of_connect_eq_connected hconnect
    refine ⟨ds, hprefix, hcarries.took rfl fun d hd => ?_⟩
    have hcommand := hprefix.subset (List.mem_map_of_mem hd)
    rcases List.mem_cons.1 hcommand with hregister | horder
    · rw [hregister]
      exact htrader
    · obtain ⟨order, horder, hd⟩ := List.mem_map.1 horder
      rw [← hd]
      exact ⟨htrader, hsymbols order horder⟩

/-- **Complete lines are commands.** For traders and symbols that commands can carry, what a session
or a script puts on its connection is its commands, one after the other, each as far as the server
takes it. The complete lines are the commands that it takes in full exactly if none of these follows
one that was cut short. A session takes an order for sent exactly if the server took all of it. -/
theorem complete_lines_are_commands (peer : Peer) :
    (∀ (start : Nat) (s : SessionSettings) (conn : Connection),
      isWireSafe s.trader.name = true →
      (∀ listing ∈ s.catalog.listings, isWireSafe listing.symbol.ticker = true) →
      (Session.course start s peer).connection = some conn →
      ∃ (registration : Delivery) (orders : List Delivery),
        registration.command = .register s.trader ∧
        orders.map (fun d => (d.command, d.isWhole)) =
          Trading.commands (Session.course start s peer).cycles ∧
        conn.Took (registration :: orders) ∧ conn.peer = peer ∧
        ∀ o, (Session.course start s peer).result = .ok o →
          o.sent.toNat = orders.countP (·.isWhole) ∧
          (Delivery.Unmerged (registration :: orders) →
            conn.lines.countP (Command.isOrderLine ·.line) = o.sent.toNat)) ∧
    ∀ (endpoint : Endpoint) (trader : Trader) (orders : List Order) (timing : ScriptTiming)
      (conn : Connection),
      isWireSafe trader.name = true →
      (∀ order ∈ orders, isWireSafe order.symbol.ticker = true) →
      (Script.course endpoint trader orders timing peer).connection = some conn →
      ∃ ds : List Delivery,
        ds.map (·.command) <+: .register trader :: orders.map (.order trader) ∧
        conn.Took ds ∧ conn.peer = peer :=
  ⟨fun _ _ _ htrader hsymbols h => Session.exists_took htrader hsymbols h,
    fun _ _ _ _ _ htrader hsymbols h => Script.exists_took htrader hsymbols h⟩

/-- The settings of a session of two orders for one symbol. -/
private def quoting (seed : UInt64) (price : Decimal) : SessionSettings :=
  { SessionSettings.standard ⟨"a"⟩ ⟨"mock", 8888⟩ ⟨[⟨⟨"X"⟩, ⟨price⟩⟩]⟩ with
    duration := .ofMillis 1000, interval := .ofMillis 1000, seed := some seed }

private def narrow (capacity : Nat) (refills : List Refill) : Peer :=
  { Peer.quiet with capacity, refills }

/-- The order lines that the server of a session gets. -/
private def orderLines (c : Course) : Option Nat :=
  c.connection.map fun conn => conn.lines.countP (Command.isOrderLine ·.line)

/-- The orders that a session reports as sent. -/
private def reported (c : Course) : Option UInt64 := c.result.toOption.map (·.sent)

/-- A session and a script against a server with room for one order and a part of the next. -/
theorem complete_lines_are_commands_narrow :
    let s := quoting 42 ⟨false, 100, 0, by decide, by decide⟩
    orderLines (Session.course 0 s (narrow 60 [])) = some 1 ∧
      ∃ (conn : Connection) (ds : List Delivery), (Script.course ⟨"mock", 8888⟩ ⟨"a"⟩ Script.standard .standard
          (narrow 60 [])).connection = some conn ∧
        conn.lines.map (·.line) = (ds.filter Delivery.isWhole).map (·.command.body) := by
  intro s
  have hsession : (Session.course 0 s (narrow 60 [])).connection.isSome = true := by
    decide +kernel
  have hscript : (Script.course ⟨"mock", 8888⟩ ⟨"a"⟩ Script.standard .standard
      (narrow 60 [])).connection.isSome = true := by decide +kernel
  have hsent : reported (Session.course 0 s (narrow 60 [])) = some 1 := by decide +kernel
  obtain ⟨conn, hconn⟩ := Option.isSome_iff_exists.1 hsession
  obtain ⟨conn', hconn'⟩ := Option.isSome_iff_exists.1 hscript
  constructor
  · obtain ⟨registration, orders, -, -, htook, hpeer, hcount⟩ :=
      (complete_lines_are_commands (narrow 60 [])).1 0 s conn (by decide) (by decide) hconn
    cases hresult : (Session.course 0 s (narrow 60 [])).result with
    | error fault => rw [reported, hresult] at hsent; cases hsent
    | ok o =>
      rw [reported, hresult] at hsent
      have hone : o.sent = 1 := Option.some.inj hsent
      have hlines := (hcount o hresult).2 (htook.apart (hpeer ▸ rfl)).unmerged
      rw [orderLines, hconn, Option.map_some, hlines, hone]
      rfl
  · obtain ⟨ds, -, htook, hpeer⟩ := (complete_lines_are_commands (narrow 60 [])).2 ⟨"mock", 8888⟩
      ⟨"a"⟩ Script.standard .standard conn' (by decide) (by decide +kernel) hconn'
    exact ⟨conn', ds, hconn', htook.lines.2 (htook.apart (hpeer ▸ rfl)).unmerged⟩

/-- An order that follows a part of a command is on the line of that part, and a worker that breaks
reports none of the orders that it sent. -/
theorem order_lines_uncounted :
    let late := quoting 42 ⟨false, 100, 0, by decide, by decide⟩
    let broken := quoting 3 ⟨false, 78000000000000000000000000000, 0, by decide, by decide⟩
    (orderLines (Session.course 0 late (narrow 5 [⟨1500, 1000⟩])) = some 1 ∧
        reported (Session.course 0 late (narrow 5 [⟨1500, 1000⟩])) = some 2 ∧
        (Session.course 0 late (narrow 5 [⟨1500, 1000⟩])).connection.bind
          (fun conn => conn.lines.head?.map (·.line)) =
            some (Utf8.encode "REGISORDER:a:X:SELL:LIMIT:97.88:7")) ∧
      orderLines (Session.course 0 broken .quiet) = some 1 ∧
      (Run.perform 1 [⟨broken, .quiet⟩]).outcomes.map (·.sent) = [0] := by
  decide +kernel

end MarketLoad
