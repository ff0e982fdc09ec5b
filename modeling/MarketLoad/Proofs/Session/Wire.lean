import MarketLoad.Proofs.OrderFlow
import MarketLoad.Proofs.Session.Course
import MarketLoad.Proofs.Session.Serving
import MarketLoad.Proofs.Venue.Delivery

/-!
# The deliveries of a session

A session delivers its registration and then the orders of its cycles, each in full if its cycle
counts as sent (`Trading.Delivers`). One cycle keeps to this (`Trading.exists_delivers_cycle`), hence
all of trading does (`Trading.Makes.exists_delivers`).
-/

namespace MarketLoad

open Venue

/-! ### Registration -/

namespace Registration

theorem carries_await (deadline : Nat) (received : Bytes) (l : Link) :
    Link.Carries l [] (await deadline received l).2 := by
  induction received, l using await.induct deadline with
  | case1 received l l' h => rw [await, h]; exact Link.carries_of_read h
  | case2 received l l' h => rw [await, h]; exact Link.carries_of_read h
  | case3 received l reason l' h => rw [await, h]; exact Link.carries_of_read h
  | case4 received l first rest l' h _ hack =>
    rw [await_of_data h, if_pos hack]
    exact Link.carries_of_read h
  | case5 received l first rest l' h _ hack hstop =>
    rw [await_of_data h, if_neg hack, if_pos hstop]
    exact Link.carries_of_read h
  | case6 received l first rest l' h _ hack hstop ih =>
    rw [await_of_data h, if_neg hack, if_neg hstop]
    exact (Link.carries_of_read h).trans ih

theorem exists_delivery_perform (trader : Trader) (deadline : Nat) (l : Link) :
    ∃ d : Delivery, d.command = .register trader ∧
      (d.isWhole = true ↔ (l.write deadline (Command.register trader).bytes).1 = .done) ∧
      Link.Carries l [d] (perform trader deadline l).2 := by
  obtain ⟨d, hcommand, hcarries, hwhole⟩ := Link.exists_delivery deadline l (.register trader)
  refine ⟨d, hcommand, hwhole, ?_⟩
  unfold perform
  rcases hw : l.write deadline (Command.register trader).bytes with ⟨result, l'⟩
  rw [hw] at hcarries
  cases result with
  | done => exact hcarries.trans (carries_await ..)
  | failed reason => exact hcarries
  | timedOut => exact hcarries

end Registration

/-! ### Trading -/

namespace Trading

variable {s : SessionSettings} {l l' l'' : Link} {cycles cycles' : List Cycle} {catalog : Catalog}

/-- The commands of some cycles, each with whether it counts as sent. -/
def commands (cycles : List Cycle) : List (Command × Bool) :=
  cycles.filterMap fun c => c.command.map (·, c.sent)

/-- A command is an order of a trader for a symbol of a catalog. -/
def IsOrderOf (trader : Trader) (catalog : Catalog) (command : Command) : Prop :=
  ∃ o, command = .order trader o ∧ ∃ listing ∈ catalog.listings, o.symbol = listing.symbol

/-- Some cycles take a client from one link to another and deliver their orders, each in full if it
counts as sent. A cycle without an order sends none. -/
structure Delivers (s : SessionSettings) (l : Link) (cycles : List Cycle) (ds : List Delivery)
    (l' : Link) : Prop where
  carries : Link.Carries l ds l'
  commands : ds.map (fun d => (d.command, d.isWhole)) = commands cycles
  orders : ∀ d ∈ ds, IsOrderOf s.trader s.catalog d.command
  idle : ∀ c ∈ cycles, c.command = none → c.sent = false

/-- Cycles without an order do not count as sent. -/
theorem countP_commands (h : ∀ c ∈ cycles, c.command = none → c.sent = false) :
    (commands cycles).countP (·.2) = cycles.countP (·.sent) := by
  induction cycles with
  | nil => rfl
  | cons c cycles ih =>
    obtain ⟨hc, hcycles⟩ := List.forall_mem_cons.1 h
    have hrest := ih hcycles
    unfold commands at hrest ⊢
    cases hcommand : c.command with
    | none =>
      have hnot : ¬ c.sent = true := by rw [hc hcommand]; exact Bool.false_ne_true
      rw [List.filterMap_cons_none (by rw [hcommand]; rfl), List.countP_cons_of_neg hnot, hrest]
    | some command =>
      rw [List.filterMap_cons_some (b := (command, c.sent)) (by rw [hcommand]; rfl),
        List.countP_cons, List.countP_cons, hrest]

/-- As many orders got across in full as cycles count as sent. -/
theorem Delivers.countP_isWhole {ds : List Delivery} (h : Delivers s l cycles ds l') :
    ds.countP (·.isWhole) = cycles.countP (·.sent) := by
  rw [← countP_commands h.idle, ← h.commands, List.countP_map]
  rfl

theorem Delivers.none (h : Link.Carries l [] l') : Delivers s l [] [] l' :=
  ⟨h, rfl, fun _ hm => absurd hm List.not_mem_nil, fun _ hm => absurd hm List.not_mem_nil⟩

theorem Delivers.trans {ds ds' : List Delivery} (h : Delivers s l cycles ds l')
    (h' : Delivers s l' cycles' ds' l'') : Delivers s l (cycles ++ cycles') (ds ++ ds') l'' where
  carries := h.carries.trans h'.carries
  commands := by
    rw [List.map_append, h.commands, h'.commands, Trading.commands, Trading.commands,
      Trading.commands, List.filterMap_append]
  orders := List.forall_mem_append.2 ⟨h.orders, h'.orders⟩
  idle := List.forall_mem_append.2 ⟨h.idle, h'.idle⟩

theorem carries_awaitReply (timeouts : Timeouts) (start : Nat) (l : Link) :
    Link.Carries l [] (awaitReply timeouts start l).2 ∧
      (awaitReply timeouts start l).1.sent = true := by
  unfold awaitReply
  cases hd : Clock.deadline l.now timeouts.drain with
  | error fault => exact ⟨.refl l, rfl⟩
  | ok deadline =>
    rcases hr : l.read deadline with ⟨result, l'⟩
    dsimp only
    rw [hr]
    cases result <;> exact ⟨Link.carries_of_read hr, rfl⟩

theorem exists_delivery_sendOrder (timeouts : Timeouts) (command : Command) (l : Link) :
    ∃ d : Delivery, d.command = command ∧
      Link.Carries l [d] (sendOrder timeouts command l).2 ∧
      d.isWhole = (sendOrder timeouts command l).1.sent := by
  unfold sendOrder
  cases hd : Clock.deadline l.now timeouts.send with
  | error fault => exact Link.exists_delivery_unsent l command
  | ok deadline =>
    obtain ⟨d, hcommand, hcarries, hwhole⟩ := Link.exists_delivery deadline l command
    rcases hw : l.write deadline command.bytes with ⟨result, l'⟩
    rw [hw] at hcarries hwhole
    dsimp only
    rw [hw]
    cases result with
    | done =>
      obtain ⟨hcarries', hsent⟩ := carries_awaitReply timeouts l.now l'
      exact ⟨d, hcommand, hcarries.trans hcarries', (hwhole.2 rfl).trans hsent.symm⟩
    | failed reason =>
      exact ⟨d, hcommand, hcarries, Bool.eq_false_iff.2 fun h => nomatch hwhole.1 h⟩
    | timedOut =>
      exact ⟨d, hcommand, hcarries, Bool.eq_false_iff.2 fun h => nomatch hwhole.1 h⟩

/-- One cycle delivers its order, if it has one. -/
theorem exists_delivers_cycle (slot : Nat) {flow : OrderFlow} (l : Link)
    (hcatalog : flow.catalog = s.catalog) :
    (∃ ds, Delivers s l [(cycle s slot flow l).1] ds (cycle s slot flow l).2.2) ∧
      (cycle s slot flow l).2.1.catalog = s.catalog := by
  unfold cycle
  match hnext : flow.next with
  | .error fault =>
    refine ⟨⟨[], .refl l, rfl, fun _ hm => absurd hm List.not_mem_nil, fun c hc _ => ?_⟩, hcatalog⟩
    rw [List.mem_singleton.1 hc]
  | .ok (none, flow') =>
    refine ⟨⟨[], .refl l, rfl, fun _ hm => absurd hm List.not_mem_nil, fun c hc _ => ?_⟩,
      (OrderFlow.keeps_of_next hnext).1.trans hcatalog⟩
    rw [List.mem_singleton.1 hc]
  | .ok (some order, flow') =>
    obtain ⟨hcatalog', -⟩ := OrderFlow.keeps_of_next hnext
    have hsymbol := OrderFlow.symbol_of_next hnext
    rw [hcatalog] at hcatalog' hsymbol
    obtain ⟨d, hcommand, hcarries, hwhole⟩ :=
      exists_delivery_sendOrder s.timeouts (.order s.trader order) l
    refine ⟨⟨[d], hcarries, ?_, fun d' hd' => ?_, fun c hc hnone => ?_⟩, hcatalog'⟩
    · rw [List.map_singleton, hcommand, hwhole]
      rfl
    · rw [List.mem_singleton.1 hd']
      exact ⟨order, hcommand, hsymbol⟩
    · rw [List.mem_singleton.1 hc] at hnone
      cases hnone

/-- Cycles that are made deliver their orders. -/
theorem Makes.exists_delivers {flow : OrderFlow} (h : Makes s flow l cycles l')
    (hcatalog : flow.catalog = s.catalog) : ∃ ds, Delivers s l cycles ds l' := by
  induction h with
  | none time => exact ⟨[], .none (Link.carries_expire ..)⟩
  | @cycle flow _ l _ _ time slot _ _ hcycle _ ih =>
    have hwait := Delivers.none (s := s) (Link.carries_expire time l)
    obtain ⟨⟨ds, hds⟩, hcatalog'⟩ := exists_delivers_cycle slot (l.expire time) hcatalog
    rw [hcycle] at hds hcatalog'
    obtain ⟨ds', hds'⟩ := ih hcatalog'
    exact ⟨ds ++ ds', (hwait.trans hds).trans hds'⟩

/-- Trading delivers the orders of its cycles, and an unbroken worker counts them. -/
theorem exists_delivers_perform (s : SessionSettings) (l : Link) :
    (∃ ds, Delivers s l (perform s l).2.1.cycles.reverse ds (perform s l).2.2) ∧
      ((perform s l).1 = none → (perform s l).2.1.Faithful) := by
  refine ⟨(makes_perform s l).exists_delivers rfl, fun hnone => ?_⟩
  unfold perform at hnone ⊢
  split at hnone
  · rename_i hreach
    rw [if_pos hreach]
    exact (serveFrom_adds l.now 0 s.flow .empty l).2 hnone .empty
  · cases hnone

end Trading

/-! ### The session -/

namespace Session

/-- What a session puts on its connection: its registration, and the orders of its cycles. -/
theorem exists_delivers_connected (start : Nat) (s : SessionSettings) (l : Link)
    {conn : Connection} (h : (connected start s l).connection = some conn) :
    ∃ (registration : Delivery) (orders : List Delivery) (l' : Link),
      registration.command = .register s.trader ∧ l'.connection = conn ∧
      Link.Carries l (registration :: orders) l' ∧
      orders.map (fun d => (d.command, d.isWhole)) =
        Trading.commands (connected start s l).cycles ∧
      (∀ d ∈ orders, Trading.IsOrderOf s.trader s.catalog d.command) ∧
      ∀ o, (connected start s l).result = .ok o →
        o.sent.toNat = orders.countP (·.isWhole) := by
  obtain ⟨fault, -, hbroken⟩ |
    ⟨deadline, registration, l₁, broke, tally, l₂, -, hregistration, htrading, hend⟩ :=
      connected_cases start s l
  · obtain ⟨d, hcommand, hcarries, -⟩ := Link.exists_delivery_unsent l (.register s.trader)
    rw [hbroken] at h ⊢
    exact ⟨d, [], l, hcommand, Option.some.inj h, hcarries, rfl,
      fun _ hm => absurd hm List.not_mem_nil, nofun⟩
  obtain ⟨d, hcommand, -, hcarries⟩ := Registration.exists_delivery_perform s.trader deadline l
  obtain ⟨⟨ds, hds⟩, hfaithful⟩ := Trading.exists_delivers_perform s l₁
  rw [hregistration] at hcarries
  rw [htrading] at hds hfaithful
  have hall := hcarries.trans hds.carries
  obtain ⟨fault, -, hcourse⟩ | ⟨hnone, deadline', -, hcourse⟩ := hend
  · rw [hcourse] at h ⊢
    exact ⟨d, ds, l₂, hcommand, Option.some.inj h, hall, hds.commands, hds.orders, nofun⟩
  · rw [hcourse] at h ⊢
    have hleft := hall.trans (Link.carries_farewell deadline' l₂)
    rw [List.append_nil] at hleft
    refine ⟨d, ds, _, hcommand, Option.some.inj h, hleft, hds.commands, hds.orders,
      fun o ho => ?_⟩
    cases ho
    rw [hds.countP_isWhole, List.countP_reverse]
    exact (hfaithful hnone).sent

end Session

end MarketLoad
