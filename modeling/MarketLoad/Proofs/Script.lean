import MarketLoad.Proofs.Venue.Delivery
import MarketLoad.Script

/-!
# The deliveries of a script

What a script does is told by cases: an exchange (`Script.exchange_cases`), the script of a connected
trader (`Script.connected_cases`) and a whole run (`Script.course_cases`). A script delivers the
registration of its trader and then its orders, in their order, as far as it gets
(`Script.exists_deliveries_connected`), and each exchange records its delivery
(`Script.exists_delivery_exchange`).
-/

namespace MarketLoad

open Venue

/-- An exchange keeps the line of a command that it delivered, and a response only if all of the
command got across. -/
structure Exchange.Records (e : Exchange) (d : Delivery) : Prop where
  command : e.command = d.command.line
  answered : e.response.isSome = true → d.isWhole = true

namespace Script

variable {timing : ScriptTiming} {trader : Trader}

theorem carries_readText (deadline : Nat) (l : Link) :
    Link.Carries l [] (readText deadline l).2 := by
  unfold readText
  rcases hr : l.read deadline with ⟨result, l'⟩
  cases result <;> exact Link.carries_of_read hr

theorem carries_listen (deadline : Nat) (l : Link) : Link.Carries l [] (listen deadline l).2 := by
  induction l using listen.induct deadline with
  | case1 l first rest l' h lines l'' hlisten ih =>
    rw [hlisten] at ih
    rw [listen, h]
    dsimp only
    rw [hlisten]
    exact (Link.carries_of_read h).trans ih
  | case2 l result l' hresult h =>
    rw [listen, h]
    cases result with
    | data first rest => exact absurd rfl (hresult first rest)
    | ended => exact Link.carries_of_read h
    | failed reason => exact Link.carries_of_read h
    | timedOut => exact Link.carries_of_read h

/-- An exchange sends its command and reads once if it has sent it in full. -/
theorem exchange_cases (timing : ScriptTiming) (command : Command) (l : Link) :
    (∃ fault, Clock.deadline l.now timing.send = .error fault ∧
        exchange timing command l = (.error fault, l)) ∨
      ∃ deadline written l₁, Clock.deadline l.now timing.send = .ok deadline ∧
        l.write deadline command.bytes = (written, l₁) ∧
        (written ≠ .done ∧ exchange timing command l = (.ok ⟨command.line, none⟩, l₁) ∨
          written = .done ∧
            ((∃ fault, Clock.deadline l₁.now timing.responseWait = .error fault ∧
                exchange timing command l = (.error fault, l₁)) ∨
              ∃ deadline' response l₂,
                Clock.deadline l₁.now timing.responseWait = .ok deadline' ∧
                readText deadline' l₁ = (response, l₂) ∧
                exchange timing command l = (.ok ⟨command.line, response⟩, l₂))) := by
  unfold exchange
  cases hsend : Clock.deadline l.now timing.send with
  | error fault => exact .inl ⟨fault, rfl, rfl⟩
  | ok deadline =>
    rcases hw : l.write deadline command.bytes with ⟨written, l₁⟩
    refine .inr ⟨deadline, written, l₁, rfl, hw, ?_⟩
    dsimp only
    rw [hw]
    cases written with
    | failed reason => exact .inl ⟨nofun, rfl⟩
    | timedOut => exact .inl ⟨nofun, rfl⟩
    | done =>
      refine .inr ⟨rfl, ?_⟩
      dsimp only
      cases hwait : Clock.deadline l₁.now timing.responseWait with
      | error fault => exact .inl ⟨fault, rfl, rfl⟩
      | ok deadline' =>
        rcases hread : readText deadline' l₁ with ⟨response, l₂⟩
        refine .inr ⟨deadline', response, l₂, rfl, hread, ?_⟩
        dsimp only
        rw [hread]

/-- An exchange delivers its command, and it records the delivery. -/
theorem exists_delivery_exchange (timing : ScriptTiming) (command : Command) (l : Link) :
    ∃ d : Delivery, d.command = command ∧ Link.Carries l [d] (exchange timing command l).2 ∧
      ∀ e, (exchange timing command l).1 = .ok e → e.Records d := by
  obtain ⟨fault, -, hexchange⟩ | ⟨deadline, written, l₁, -, hwrite, hend⟩ :=
    exchange_cases timing command l
  · obtain ⟨d, hcommand, hcarries, -⟩ := Link.exists_delivery_unsent l command
    rw [hexchange]
    exact ⟨d, hcommand, hcarries, nofun⟩
  obtain ⟨d, hcommand, hcarries, hwhole⟩ := Link.exists_delivery deadline l command
  rw [hwrite] at hcarries hwhole
  refine ⟨d, hcommand, ?_⟩
  obtain ⟨-, hexchange⟩ | ⟨rfl, ⟨fault, -, hexchange⟩ |
    ⟨deadline', response, l₂, -, hread, hexchange⟩⟩ := hend
  · rw [hexchange]
    refine ⟨hcarries, ?_⟩
    rintro _ ⟨⟩
    exact ⟨congrArg Command.line hcommand.symm, nofun⟩
  · rw [hexchange]
    exact ⟨hcarries, nofun⟩
  · have hquiet := carries_readText deadline' l₁
    rw [hread] at hquiet
    rw [hexchange]
    refine ⟨hcarries.trans hquiet, ?_⟩
    rintro _ ⟨⟩
    exact ⟨congrArg Command.line hcommand.symm, fun _ => hwhole.2 rfl⟩

/-- Exchanges deliver the orders, in their order, as far as they get. -/
theorem exists_deliveries_exchanges (timing : ScriptTiming) (trader : Trader) (first : Bool)
    (l : Link) (orders : List Order) :
    ∃ ds : List Delivery, ds.map (·.command) <+: orders.map (.order trader) ∧
      Link.Carries l ds (exchanges timing trader first l orders).2 := by
  induction orders generalizing first l with
  | nil => exact ⟨[], List.nil_prefix, .refl l⟩
  | cons order orders ih =>
    unfold exchanges
    -- The pause before the order delivers nothing.
    generalize hl' : (if first then l else
      { l with now := l.now + roundUp (Clock.pause timing.pause) Nanos.perMilli } : Link) = l'
    have hpause : Link.Carries l [] l' := by
      subst hl'
      split
      · exact .refl l
      · exact .quiet rfl
    obtain ⟨d, hcommand, hcarries, -⟩ := exists_delivery_exchange timing (.order trader order) l'
    have hfirst := hpause.trans hcarries
    rcases hexchange : exchange timing (.order trader order) l' with ⟨result, l''⟩
    rw [hexchange] at hfirst
    dsimp only
    rw [hexchange]
    cases result with
    | error fault =>
      refine ⟨[d], ?_, hfirst⟩
      rw [List.map_singleton, hcommand, List.map_cons]
      exact List.prefix_append [_] _
    | ok done =>
      obtain ⟨ds, hprefix, hrest⟩ := ih false l''
      refine ⟨d :: ds, ?_, ?_⟩
      · rw [List.map_cons, hcommand, List.map_cons]
        exact List.prefix_cons_inj _ |>.2 hprefix
      · have hall := hfirst.trans hrest
        dsimp only
        rcases hexchanges : exchanges timing trader false l'' orders with ⟨rest, l₃⟩
        rw [hexchanges] at hall
        cases rest <;> exact hall

/-- A connected trader registers, sends the orders, listens and takes leave, or breaks on the way. -/
theorem connected_cases (timing : ScriptTiming) (trader : Trader) (orders : List Order) (l : Link) :
    (∃ fault l₁, exchange timing (.register trader) l = (.error fault, l₁) ∧
        connected timing trader orders l = (.error fault, l₁)) ∨
      ∃ registration l₁, exchange timing (.register trader) l = (.ok registration, l₁) ∧
        ((∃ fault l₂, exchanges timing trader true l₁ orders = (.error fault, l₂) ∧
            connected timing trader orders l = (.error fault, l₂)) ∨
          ∃ es l₂, exchanges timing trader true l₁ orders = (.ok es, l₂) ∧
            ((∃ fault, Clock.deadline l₂.now timing.listen = .error fault ∧
                connected timing trader orders l = (.error fault, l₂)) ∨
              ∃ deadline notifications l₃, Clock.deadline l₂.now timing.listen = .ok deadline ∧
                listen deadline l₂ = (notifications, l₃) ∧
                ((∃ fault, Clock.deadline l₃.now timing.send = .error fault ∧
                    connected timing trader orders l = (.error fault, l₃)) ∨
                  ∃ deadline', Clock.deadline l₃.now timing.send = .ok deadline' ∧
                    connected timing trader orders l =
                      (.ok ⟨trader, registration, es, notifications⟩, l₃.farewell deadline')))) := by
  unfold connected
  rcases exchange timing (.register trader) l with ⟨fault | registration, l₁⟩
  · exact .inl ⟨fault, l₁, rfl, rfl⟩
  refine .inr ⟨registration, l₁, rfl, ?_⟩
  dsimp only
  rcases exchanges timing trader true l₁ orders with ⟨fault | es, l₂⟩
  · exact .inl ⟨fault, l₂, rfl, rfl⟩
  refine .inr ⟨es, l₂, rfl, ?_⟩
  dsimp only
  cases Clock.deadline l₂.now timing.listen with
  | error fault => exact .inl ⟨fault, rfl, rfl⟩
  | ok deadline =>
    rcases hlisten : listen deadline l₂ with ⟨notifications, l₃⟩
    refine .inr ⟨deadline, notifications, l₃, rfl, hlisten, ?_⟩
    dsimp only
    rw [hlisten]
    cases Clock.deadline l₃.now timing.send with
    | error fault => exact .inl ⟨fault, rfl, rfl⟩
    | ok deadline' => exact .inr ⟨deadline', rfl, rfl⟩

/-- A script delivers the registration and then the orders, as far as it gets. -/
theorem exists_deliveries_connected (timing : ScriptTiming) (trader : Trader) (orders : List Order)
    (l : Link) :
    ∃ ds : List Delivery,
      ds.map (·.command) <+: .register trader :: orders.map (.order trader) ∧
      Link.Carries l ds (connected timing trader orders l).2 := by
  obtain ⟨d, hcommand, hcarries, -⟩ := exists_delivery_exchange timing (.register trader) l
  obtain ⟨fault, l₁, hexchange, hconnected⟩ | ⟨registration, l₁, hexchange, hrest⟩ :=
    connected_cases timing trader orders l
  · rw [hexchange] at hcarries
    rw [hconnected]
    refine ⟨[d], ?_, hcarries⟩
    rw [List.map_singleton, hcommand]
    exact List.prefix_append [_] _
  rw [hexchange] at hcarries
  obtain ⟨ds, hprefix, horders⟩ := exists_deliveries_exchanges timing trader true l₁ orders
  refine ⟨d :: ds, ?_, ?_⟩
  · rw [List.map_cons, hcommand]
    exact List.prefix_cons_inj _ |>.2 hprefix
  have hall := hcarries.trans horders
  obtain ⟨fault, l₂, hexchanges, hconnected⟩ | ⟨es, l₂, hexchanges, hrest⟩ := hrest
  · rw [hexchanges] at hall
    rw [hconnected]
    exact hall
  rw [hexchanges] at hall
  obtain ⟨fault, -, hconnected⟩ | ⟨deadline, notifications, l₃, -, hlisten, hrest⟩ := hrest
  · rw [hconnected]
    exact hall
  have hlistened := hall.trans (carries_listen deadline l₂)
  rw [hlisten, List.append_nil] at hlistened
  obtain ⟨fault, -, hconnected⟩ | ⟨deadline', -, hconnected⟩ := hrest
  · rw [hconnected]
    exact hlistened
  · have hleft := hlistened.trans (Link.carries_farewell deadline' l₃)
    rw [List.append_nil] at hleft
    rw [hconnected]
    exact hleft

/-- A script breaks before it connects, fails to connect, breaks its connector or is connected. -/
theorem course_cases (endpoint : Endpoint) (trader : Trader) (orders : List Order)
    (timing : ScriptTiming) (peer : Peer) :
    (∃ fault, Clock.deadline 0 timing.connect = .error fault ∧
        course endpoint trader orders timing peer = ⟨.error fault, 0, none⟩) ∨
      ∃ deadline, Clock.deadline 0 timing.connect = .ok deadline ∧
        ((∃ time failure, connect endpoint.text peer 0 deadline = .failed time failure ∧
            course endpoint trader orders timing peer = ⟨.ok (.error failure), time, none⟩) ∨
          (∃ time text, connect endpoint.text peer 0 deadline = .crashed time text ∧
            course endpoint trader orders timing peer = ⟨.error (.crash text), time, none⟩) ∨
          ∃ l result l', connect endpoint.text peer 0 deadline = .connected l ∧
            connected timing trader orders l = (result, l') ∧
            course endpoint trader orders timing peer =
              ⟨result.map .ok, l'.now, some l'.connection⟩) := by
  unfold course
  cases hdeadline : Clock.deadline 0 timing.connect with
  | error fault => exact .inl ⟨fault, rfl, rfl⟩
  | ok deadline =>
    refine .inr ⟨deadline, rfl, ?_⟩
    dsimp only
    cases hconnect : connect endpoint.text peer 0 deadline with
    | failed time failure => exact .inl ⟨time, failure, rfl, rfl⟩
    | crashed time text => exact .inr (.inl ⟨time, text, rfl, rfl⟩)
    | connected l => exact .inr (.inr ⟨l, _, _, rfl, rfl, rfl⟩)

end Script

end MarketLoad
