import Mathlib.Data.List.Forall2
import MarketLoad.Proofs.Session.Wire

/-!
# The orders of a session

The cycles of a session attempt the orders of its flow, one each, in their order
(`Trading.Makes.commands`); how many there are is all that a server decides
(`Session.attempted_course`). What gets across of them are lines, whole where a cycle counts as sent
and cut short where it does not (`Trading.Makes.exists_lines`), between the registration and a
single farewell. So the bytes of a session that ends in good order are known up to where its
commands are cut short (`Session.order_stream_exact`).
-/

namespace MarketLoad

open Venue

/-! ### No farewell before the end -/

namespace Venue.Link

theorem farewells_write (deadline : Nat) (l : Link) (bytes : Bytes) :
    (write deadline l bytes).2.connection.farewells = l.connection.farewells := by
  induction l, bytes using write.induct deadline with
  | case1 l => rw [write_nil]
  | case2 l bytes hne l' hready hn ih =>
    rw [write_of_ready hne hready hn, part, ih, ← (ready_of_untilWritable hready).1]
    exact Connection.farewells_take ..
  | case3 l bytes hne l' hready hn =>
    rw [write_of_full hne hready hn, (ready_of_untilWritable hready).1]
  | case4 l bytes hne result l' hresult h =>
    have hconnection := connection_untilWritable deadline l
    rw [h] at hconnection
    rw [write_of_not_ready hne hresult h, hconnection]

theorem farewells_read (deadline : Nat) (l : Link) :
    (read deadline l).2.connection.farewells = l.connection.farewells := by
  unfold read
  split
  · rfl
  · rfl

theorem farewells_of_read {deadline : Nat} {l l' : Link} {result : Received}
    (h : l.read deadline = (result, l')) : l'.connection.farewells = l.connection.farewells := by
  have hread := farewells_read deadline l
  rwa [h] at hread

theorem farewells_farewell (deadline : Nat) (l : Link) :
    (l.farewell deadline).connection.farewells =
      l.connection.farewells + if l.connection.peer.farewell = .accept then 1 else 0 := by
  unfold farewell
  cases hfarewell : l.connection.peer.farewell with
  | accept => rfl
  | fail => rfl
  | stall => rfl

end Venue.Link

theorem Registration.farewells_await (deadline : Nat) (received : Bytes) (l : Link) :
    (await deadline received l).2.connection.farewells = l.connection.farewells := by
  induction received, l using await.induct deadline with
  | case1 received l l' h => rw [await, h]; exact Link.farewells_of_read h
  | case2 received l l' h => rw [await, h]; exact Link.farewells_of_read h
  | case3 received l reason l' h => rw [await, h]; exact Link.farewells_of_read h
  | case4 received l first rest l' h _ hack =>
    rw [await_of_data h, if_pos hack]
    exact Link.farewells_of_read h
  | case5 received l first rest l' h _ hack hstop =>
    rw [await_of_data h, if_neg hack, if_pos hstop]
    exact Link.farewells_of_read h
  | case6 received l first rest l' h _ hack hstop ih =>
    rw [await_of_data h, if_neg hack, if_neg hstop]
    exact ih.trans (Link.farewells_of_read h)

theorem Registration.farewells_perform (trader : Trader) (deadline : Nat) (l : Link) :
    (perform trader deadline l).2.connection.farewells = l.connection.farewells := by
  have hwrite := Link.farewells_write deadline l (Command.register trader).bytes
  unfold perform
  rcases hw : l.write deadline (Command.register trader).bytes with ⟨result, l'⟩
  rw [hw] at hwrite
  cases result with
  | done => exact (farewells_await ..).trans hwrite
  | failed reason => exact hwrite
  | timedOut => exact hwrite

namespace Trading

variable {s : SessionSettings} {flow : OrderFlow} {l l' : Link} {cycles : List Cycle}

theorem farewells_awaitReply (timeouts : Timeouts) (start : Nat) (l : Link) :
    (awaitReply timeouts start l).2.connection.farewells = l.connection.farewells := by
  unfold awaitReply
  split
  · rfl
  · rename_i deadline _
    rcases hr : l.read deadline with ⟨result, l'⟩
    cases result <;> exact Link.farewells_of_read hr

theorem farewells_sendOrder (timeouts : Timeouts) (command : Command) (l : Link) :
    (sendOrder timeouts command l).2.connection.farewells = l.connection.farewells := by
  unfold sendOrder
  split
  · rfl
  · rename_i deadline _
    have hwrite := Link.farewells_write deadline l command.bytes
    rcases hw : l.write deadline command.bytes with ⟨result, l'⟩
    rw [hw] at hwrite
    cases result with
    | done => exact (farewells_awaitReply ..).trans hwrite
    | failed reason => exact hwrite
    | timedOut => exact hwrite

theorem farewells_cycle (s : SessionSettings) (slot : Nat) (flow : OrderFlow) (l : Link) :
    (cycle s slot flow l).2.2.connection.farewells = l.connection.farewells := by
  unfold cycle
  split
  · rfl
  · rfl
  · exact farewells_sendOrder ..

theorem Makes.farewells (h : Makes s flow l cycles l') :
    l'.connection.farewells = l.connection.farewells := by
  induction h with
  | none time => rfl
  | @cycle flow _ l _ _ time slot _ _ hcycle _ ih =>
    have hkept := farewells_cycle s slot flow (l.expire time)
    rw [hcycle] at hkept
    exact ih.trans hkept

/-! ### One order for each cycle -/

/-- A cycle attempts the first order of its flow and leaves the others. -/
theorem command_cycle (s : SessionSettings) (slot : Nat) (flow : OrderFlow) (l : Link) :
    (cycle s slot flow l).1.command = (flow.nth? 0).map (.order s.trader) ∧
      ∀ place, flow.nth? (place + 1) = (cycle s slot flow l).2.1.nth? place := by
  unfold cycle
  match hnext : flow.next with
  | .error fault =>
    constructor
    · rw [OrderFlow.nth?_of_error hnext]
      rfl
    · intro place
      rw [OrderFlow.nth?_of_error hnext, OrderFlow.nth?_of_error hnext]
  | .ok (none, flow') =>
    exact ⟨by rw [OrderFlow.nth?_zero hnext]; rfl, OrderFlow.nth?_succ hnext⟩
  | .ok (some order, flow') =>
    exact ⟨by rw [OrderFlow.nth?_zero hnext]; rfl, OrderFlow.nth?_succ hnext⟩

theorem Makes.commands (h : Makes s flow l cycles l') :
    cycles.map (·.command) =
      (List.range cycles.length).map fun place => (flow.nth? place).map (.order s.trader) := by
  induction h with
  | none time => rfl
  | @cycle flow flow' l _ _ time slot c cycles hcycle _ ih =>
    obtain ⟨hcommand, hlater⟩ := command_cycle s slot flow (l.expire time)
    rw [hcycle] at hcommand hlater
    rw [List.map_cons, ih, List.length_cons, List.range_succ_eq_map, List.map_cons, List.map_map,
      hcommand]
    refine congrArg _ (List.map_congr_left ?_)
    intro place _
    rw [Function.comp_apply, hlater place]

/-- A cycle that keeps its worker whole has an order if anything is listed. -/
theorem exists_order_of_cycle (slot : Nat) (l : Link) (hcatalog : flow.catalog.isEmpty = false)
    (hfault : (cycle s slot flow l).1.fault = none) : ∃ order, flow.nth? 0 = some order := by
  unfold cycle at hfault
  match hnext : flow.next with
  | .error fault =>
    rw [hnext] at hfault
    cases hfault
  | .ok (order, flow') =>
    rw [OrderFlow.nth?_zero hnext]
    exact OrderFlow.exists_order_of_next hcatalog hnext

/-! ### One line for each cycle -/

/-- What got across in a cycle: of its order if it has one, all of it if the cycle counts as sent
and only a part if it does not. -/
structure Carried (c : Cycle) (line : Bytes) : Prop where
  line_prefix : ∀ command, c.command = some command →
    line <+: command.bytes ∧ (line = command.bytes ↔ c.sent = true)
  idle : c.command = none → line = [] ∧ c.sent = false

theorem Delivers.carried {c : Cycle} {ds : List Delivery} (h : Delivers s l [c] ds l') :
    Carried c (Delivery.carriedAll ds) := by
  have hcommands := h.commands
  unfold Trading.commands at hcommands
  cases hcommand : c.command with
  | none =>
    rw [List.filterMap_cons_none (by rw [hcommand]; rfl), List.filterMap_nil,
      List.map_eq_nil_iff] at hcommands
    subst hcommands
    constructor
    · intro command hsome
      cases hcommand.symm.trans hsome
    · intro _
      exact ⟨rfl, h.idle c List.mem_cons_self hcommand⟩
  | some command =>
    rw [List.filterMap_cons_some (b := (command, c.sent)) (by rw [hcommand]; rfl),
      List.filterMap_nil] at hcommands
    obtain ⟨d, rfl, hd⟩ := List.map_eq_singleton_iff.1 hcommands
    obtain ⟨rfl, hsent⟩ := Prod.mk.inj hd
    have hline : Delivery.carriedAll [d] = d.carried := List.append_nil d.carried
    constructor
    · intro command hsome
      obtain rfl : d.command = command := Option.some.inj (hcommand.symm.trans hsome)
      rw [hline, ← hsent, Delivery.isWhole_iff]
      exact ⟨d.isPrefix, Iff.rfl⟩
    · intro hnone
      cases hcommand.symm.trans hnone

theorem Makes.exists_lines (h : Makes s flow l cycles l') (hcatalog : flow.catalog = s.catalog) :
    ∃ lines : List Bytes, l'.connection.stream = l.connection.stream ++ lines.flatten ∧
      List.Forall₂ Carried cycles lines := by
  induction h with
  | none time => exact ⟨[], (List.append_nil _).symm, .nil⟩
  | @cycle flow _ l _ _ time slot _ _ hcycle _ ih =>
    obtain ⟨⟨ds, hds⟩, hcatalog'⟩ := exists_delivers_cycle slot (l.expire time) hcatalog
    rw [hcycle] at hds hcatalog'
    obtain ⟨lines, hstream, hlines⟩ := ih hcatalog'
    refine ⟨Delivery.carriedAll ds :: lines, ?_, .cons hds.carried hlines⟩
    rw [hstream, hds.carries.stream, List.flatten_cons, List.append_assoc]
    rfl

theorem Makes.exists_order (h : Makes s flow l cycles l') (hcatalog : flow.catalog = s.catalog)
    (hlisted : s.catalog.isEmpty = false) (hfaults : ∀ c ∈ cycles, c.fault = .none) (place : Nat)
    (hplace : place < cycles.length) : ∃ order, flow.nth? place = some order := by
  induction h generalizing place with
  | none time => exact absurd hplace (Nat.not_lt_zero _)
  | @cycle flow _ l _ _ time slot c _ hcycle _ ih =>
    obtain ⟨-, hlater⟩ := command_cycle s slot flow (l.expire time)
    obtain ⟨-, hcatalog'⟩ := exists_delivers_cycle slot (l.expire time) hcatalog
    obtain ⟨hfault, hfaults⟩ := List.forall_mem_cons.1 hfaults
    have horder := exists_order_of_cycle (s := s) slot (l.expire time) (hcatalog ▸ hlisted)
    rw [hcycle] at hlater hcatalog' horder
    cases place with
    | zero => exact horder hfault
    | succ place =>
      rw [hlater place]
      exact ih hcatalog' hfaults place (Nat.lt_of_succ_lt_succ hplace)

/-- What an unbroken worker leaves behind: a line on the connection for each cycle, with an order in
each if anything is listed. -/
theorem exists_lines_perform {tally : Tally} (h : perform s l = (none, tally, l')) :
    l'.connection.peer = l.connection.peer ∧
      l'.connection.farewells = l.connection.farewells ∧ tally.Faithful ∧
      (s.catalog.isEmpty = false → ∀ place < tally.cycles.reverse.length,
        ∃ order, s.flow.nth? place = some order) ∧
      ∃ lines : List Bytes, l'.connection.stream = l.connection.stream ++ lines.flatten ∧
        List.Forall₂ Carried tally.cycles.reverse lines := by
  have hmakes := makes_perform s l
  obtain ⟨⟨ds, hds⟩, hfaithful⟩ := exists_delivers_perform s l
  have hfaults := fault_of_perform (congrArg Prod.fst h)
  rw [h] at hmakes hds hfaithful hfaults
  refine ⟨hds.carries.peer, hmakes.farewells, hfaithful rfl, ?_, hmakes.exists_lines rfl⟩
  intro hlisted
  apply hmakes.exists_order rfl hlisted
  intro c hc
  exact hfaults c (List.mem_reverse.1 hc)

end Trading

/-! ### The session -/

namespace Session

variable {start : Nat} {s : SessionSettings} {peer : Peer} {conn : Connection} {o : Outcome}

/-- The lines that a session attempts to put on its connection after its registration. -/
def attempted (c : Course) : List Bytes :=
  (c.cycles.map (·.command)).filterMap (Option.map Command.bytes)

/-- Whatever a session meets, its cycles attempt the orders of its flow, from the first one on. -/
theorem commands_course (start : Nat) (s : SessionSettings) (peer : Peer) :
    (course start s peer).cycles.map (·.command) =
      (List.range (course start s peer).cycles.length).map
        fun place => (s.flow.nth? place).map (.order s.trader) := by
  obtain hnone | ⟨l, hcycles⟩ := exists_window start s peer
  · rw [hnone]
    rfl
  · rw [hcycles]
    exact (Trading.makes_perform s l).commands

theorem attempted_course (start : Nat) (s : SessionSettings) (peer : Peer) :
    attempted (course start s peer) =
      (List.range (course start s peer).cycles.length).filterMap
        fun place => (s.flow.nth? place).map fun order => (Command.order s.trader order).bytes := by
  rw [attempted, commands_course, List.filterMap_map]
  simp only [Function.comp_def, Option.map_map]

/-- Of two runs of a session, the one with fewer cycles attempts a start of what the other does. -/
theorem attempted_prefix {start' : Nat} {peer' : Peer}
    (h : (course start s peer).cycles.length ≤ (course start' s peer').cycles.length) :
    attempted (course start s peer) <+: attempted (course start' s peer') := by
  obtain ⟨more, hmore⟩ := Nat.exists_eq_add_of_le h
  rw [attempted_course, attempted_course, hmore, List.range_add, List.filterMap_append]
  exact List.prefix_append ..

/-- What a session did that ended in good order: it put its registration and a line for each cycle
on its connection, the orders of a flow in their order, and said farewell once, behind all of them.
-/
structure Streams (s : SessionSettings) (flow : OrderFlow) (c : Course) (o : Outcome)
    (conn : Connection) (registration : Bytes) (lines : List Bytes) : Prop where
  stream : conn.stream = registration ++ lines.flatten
  registration_prefix : registration <+: (Command.register s.trader).bytes
  registration_whole : ∃ delay deadline, conn.peer.delay = some delay ∧
    Clock.deadline (c.start + delay) s.timeouts.registerAck = .ok deadline ∧
    (registration = (Command.register s.trader).bytes ↔
      (Link.write deadline ⟨c.start + delay, .opening conn.peer (c.start + delay)⟩
        (Command.register s.trader).bytes).1 = .done)
  /-- The cycles attempt the orders of the flow, from the first one on. -/
  commands : c.cycles.map (·.command) =
    (List.range c.cycles.length).map fun place => (flow.nth? place).map (.order s.trader)
  orders : s.catalog.isEmpty = false →
    ∀ place < c.cycles.length, ∃ order, flow.nth? place = some order
  lines : List.Forall₂ Trading.Carried c.cycles lines
  sent : o.sent.toNat = c.cycles.countP (·.sent)
  skipped : o.skipped.toNat = c.cycles.countP (!·.sent)
  /-- The farewell is the only one, and the last thing that the client does. -/
  farewell : ∃ (l : Link) (deadline : Nat), l.connection.stream = conn.stream ∧
    l.connection.farewells = 0 ∧ conn = (l.farewell deadline).connection ∧
    c.finish = (l.farewell deadline).now
  farewells : conn.farewells = if conn.peer.farewell = .accept then 1 else 0

theorem exists_streams (hconn : (course start s peer).connection = some conn)
    (ho : (course start s peer).result = .ok o) :
    conn.peer = peer ∧ ∃ registration lines,
      Streams s s.flow (course start s peer) o conn registration lines := by
  have hstart := start_course start s peer
  have hcommands := commands_course start s peer
  obtain ⟨delay, hdelay, hcourse⟩ := course_connected hconn
  rw [hcourse] at hconn ho hstart hcommands ⊢
  obtain ⟨deadline, registration, l₁, tally, l₂, deadline', hack, hregistration, htrading, rfl,
    hfinish, hconnection, hcycles⟩ := connected_of_ok ho
  obtain rfl := Option.some.inj (hconn.symm.trans hconnection)
  -- The registration comes first.
  obtain ⟨d, hcommand, hwhole, hregisters⟩ :=
    Registration.exists_delivery_perform s.trader deadline
      ⟨start + delay, .opening peer (start + delay)⟩
  have hbefore := Registration.farewells_perform s.trader deadline
    ⟨start + delay, .opening peer (start + delay)⟩
  rw [hregistration] at hregisters hbefore
  -- The cycles follow it.
  obtain ⟨hcyclesPeer, hcyclesFarewells, hfaithful, horders, lines, hlines, hcarried⟩ :=
    Trading.exists_lines_perform htrading
  have hstream : l₂.connection.stream = d.carried ++ lines.flatten := by
    have hfirst : l₁.connection.stream = d.carried :=
      hregisters.stream.trans (List.append_nil d.carried)
    rw [hlines, hfirst]
  -- The farewell adds nothing to them.
  have hleft := Link.carries_farewell deadline' l₂
  have hkept : (l₂.farewell deadline').connection.stream = l₂.connection.stream :=
    hleft.stream.trans (List.append_nil _)
  have hpeer : l₂.connection.peer = peer := hcyclesPeer.trans hregisters.peer
  have hnone : l₂.connection.farewells = 0 := hcyclesFarewells.trans hbefore
  refine ⟨hleft.peer.trans hpeer, d.carried, lines, ?_⟩
  exact
    { stream := hkept.trans hstream
      registration_prefix := hcommand ▸ d.isPrefix
      registration_whole := by
        rw [hstart, hleft.peer, hpeer]
        exact ⟨delay, deadline, hdelay, hack, by rw [← hwhole, Delivery.isWhole_iff, hcommand]⟩
      commands := hcommands
      orders := hcycles ▸ horders
      lines := hcycles ▸ hcarried
      sent := by rw [hcycles, List.countP_reverse]; exact hfaithful.sent
      skipped := by rw [hcycles, List.countP_reverse]; exact hfaithful.skipped
      farewell := ⟨l₂, deadline', hkept.symm, hnone, rfl, hfinish⟩
      farewells := by
        rw [Link.farewells_farewell, hnone, hleft.peer, Nat.zero_add] }

/-- **The order stream is exact.** A session with a seed that connects and ends in good order puts
its registration and the orders that the seed draws on its connection, each of them whole if its
cycle counts as sent and cut short otherwise, then says farewell. Of any two runs of the session one
attempts a start of the lines that the other attempts. -/
theorem order_stream_exact (s : SessionSettings) (seed : UInt64) (hseed : s.seed = some seed) :
    (∀ (start : Nat) (peer : Peer) (conn : Connection) (o : Outcome),
      (course start s peer).connection = some conn → (course start s peer).result = .ok o →
      conn.peer = peer ∧ ∃ registration lines,
        Streams s (.ofSeed s.catalog s.shape seed) (course start s peer) o conn registration
          lines) ∧
    ∀ (start start' : Nat) (peer peer' : Peer),
      attempted (course start s peer) <+: attempted (course start' s peer') ∨
        attempted (course start' s peer') <+: attempted (course start s peer) := by
  have hflow : s.flow = .ofSeed s.catalog s.shape seed := by rw [SessionSettings.flow, hseed]; rfl
  refine ⟨fun start peer conn o hconn ho => hflow ▸ exists_streams hconn ho, ?_⟩
  intro start start' peer peer'
  exact (Nat.le_total (course start s peer).cycles.length _).imp attempted_prefix attempted_prefix

/-- A server with room for one order and a part of the next, and one that takes everything. -/
theorem order_stream_exact_cramped :
    let s : SessionSettings :=
      { SessionSettings.standard ⟨"a"⟩ ⟨"mock", 8888⟩
          ⟨[⟨⟨"X"⟩, ⟨⟨false, 100, 0, by decide, by decide⟩⟩⟩]⟩ with
        duration := .ofMillis 1000, interval := .ofMillis 1000, seed := some 42 }
    let cramped : Peer := { Peer.quiet with capacity := some 60 }
    (course 0 s cramped).result.toOption.map (fun o => (o.sent, o.skipped)) = some (1, 1) ∧
      (∃ conn o registration lines, (course 0 s cramped).connection = some conn ∧
        (course 0 s cramped).result = .ok o ∧
        Streams s (.ofSeed s.catalog s.shape 42) (course 0 s cramped) o conn registration lines) ∧
      (attempted (course 0 s cramped) <+: attempted (course 0 s .quiet) ∨
        attempted (course 0 s .quiet) <+: attempted (course 0 s cramped)) := by
  intro s cramped
  have hcounts : (course 0 s cramped).result.toOption.map (fun o => (o.sent, o.skipped)) =
      some (1, 1) := by decide +kernel
  have hconnected : (course 0 s cramped).connection.isSome = true := by decide +kernel
  obtain ⟨conn, hconn⟩ := Option.isSome_iff_exists.1 hconnected
  obtain ⟨hstreams, hprefix⟩ := order_stream_exact s 42 rfl
  refine ⟨hcounts, ?_, hprefix 0 0 cramped .quiet⟩
  cases hresult : (course 0 s cramped).result with
  | error fault =>
    rw [hresult] at hcounts
    cases hcounts
  | ok o =>
    obtain ⟨-, registration, lines, hlines⟩ := hstreams 0 cramped conn o hconn hresult
    exact ⟨conn, o, registration, lines, hconn, rfl, hlines⟩

end Session

end MarketLoad
