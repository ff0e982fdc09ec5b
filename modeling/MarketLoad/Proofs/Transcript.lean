import MarketLoad.Proofs.Script
import MarketLoad.Proofs.Venue.Time

/-!
# Complete transcripts

Each step of a script takes no longer than its spans, and it fails only at the end of the clock
(`Script.Runs`). So a connected trader gets through all orders, whatever happens to the writes and
reads on the way, and the transcript has an exchange for each of them (`Script.Exchanged`,
`Script.runs_connected`). A script is over within the time that its spans add up to, and only a
failed connection is an error (`Script.transcript_complete`).
-/

namespace MarketLoad

open Venue

/-! ### The time of a script -/

namespace ScriptTiming

variable {timing : ScriptTiming}

/-- The spans of a script are whole milliseconds. -/
structure WholeMillis (timing : ScriptTiming) : Prop where
  connect : Nanos.perMilli ∣ timing.connect.nanos
  send : Nanos.perMilli ∣ timing.send.nanos
  responseWait : Nanos.perMilli ∣ timing.responseWait.nanos
  pause : Nanos.perMilli ∣ timing.pause.nanos
  listen : Nanos.perMilli ∣ timing.listen.nanos

/-- The milliseconds within which an exchange is over. -/
def exchangeTime (timing : ScriptTiming) : Nat :=
  timing.send.millisUp + timing.responseWait.millisUp

/-- The milliseconds within which a connected trader is through with a number of orders. -/
def connectedTime (timing : ScriptTiming) (orders : Nat) : Nat :=
  (orders + 1) * timing.exchangeTime + (orders - 1) * timing.pause.millisUp +
    timing.listen.millisUp + timing.send.millisUp

/-- The nanoseconds that the spans of a script with a number of orders add up to. -/
def longest (timing : ScriptTiming) (orders : Nat) : Nat :=
  timing.connect.nanos + (orders + 1) * (timing.send.nanos + timing.responseWait.nanos) +
    (orders - 1) * timing.pause.nanos + timing.listen.nanos + timing.send.nanos

/-- Whoever is done by the time of a script has taken no longer than its spans. -/
theorem WholeMillis.nanos_le (h : timing.WholeMillis) {time orders : Nat}
    (hle : time ≤ timing.connect.millisUp + timing.connectedTime orders) :
    Clock.nanos time ≤ timing.longest orders := by
  refine Nat.le_trans (Nat.mul_le_mul_left _ hle) (Nat.le_of_eq ?_)
  have hconnect := Span.nanos_millisUp h.connect
  have hsend := Span.nanos_millisUp h.send
  have hwait := Span.nanos_millisUp h.responseWait
  have hpause := Span.nanos_millisUp h.pause
  have hlisten := Span.nanos_millisUp h.listen
  unfold Clock.nanos at hconnect hsend hwait hpause hlisten
  unfold connectedTime exchangeTime longest
  simp only [Nat.mul_add Nanos.perMilli, Nat.mul_left_comm Nanos.perMilli, hconnect, hsend, hwait,
    hpause, hlisten, Nat.add_assoc]

end ScriptTiming

namespace Script

variable {timing : ScriptTiming} {trader : Trader} {l l' l₁ : Link} {time time₁ : Nat}

/-! ### Listening -/

theorem now_readText_le (deadline : Nat) (l : Link) :
    (readText deadline l).2.now ≤ max l.now deadline := by
  have hle := l.now_read_le deadline
  unfold readText
  rcases hr : l.read deadline with ⟨result, l'⟩
  rw [hr] at hle
  cases result <;> exact hle

theorem now_listen_le (deadline : Nat) (l : Link) :
    (listen deadline l).2.now ≤ max l.now deadline := by
  induction l using listen.induct deadline with
  | case1 l first rest l' h lines l'' hlisten ih =>
    have hle := l.now_read_le deadline
    rw [h] at hle
    rw [hlisten] at ih
    rw [listen, h]
    dsimp only
    rw [hlisten]
    exact Nat.le_trans ih (Nat.max_le.2 ⟨hle, Nat.le_max_right ..⟩)
  | case2 l result l' hresult h =>
    have hle := l.now_read_le deadline
    rw [h] at hle
    rw [listen, h]
    cases result with
    | data first rest => exact absurd rfl (hresult first rest)
    | ended => exact hle
    | failed reason => exact hle
    | timedOut => exact hle

/-- Listening passes over empty lines. -/
theorem ne_empty_of_mem_listen (deadline : Nat) (l : Link) :
    ∀ line ∈ (listen deadline l).1, line ≠ "" := by
  induction l using listen.induct deadline with
  | case1 l first rest l' h lines l'' hlisten ih =>
    rw [hlisten] at ih
    rw [listen, h]
    dsimp only
    rw [hlisten]
    refine List.forall_mem_append.2 ⟨fun line hline => ?_, ih⟩
    rintro rfl
    exact absurd (List.mem_filter.1 hline).2 (by decide)
  | case2 l result l' hresult h =>
    rw [listen, h]
    cases result with
    | data first rest => exact absurd rfl (hresult first rest)
    | ended => exact List.forall_mem_nil _
    | failed reason => exact List.forall_mem_nil _
    | timedOut => exact List.forall_mem_nil _

/-! ### Steps of a script -/

/-- A step of a script that begins on a link is over within a number of milliseconds. It keeps what
it promises, unless the clock ends within this time. -/
structure Runs {α : Type} (l : Link) (time : Nat) (promise : α → Link → Prop)
    (step : Except Fault α × Link) : Prop where
  within : step.2.now ≤ l.now + time
  keeps : ∀ a, step.1 = .ok a → promise a step.2
  breaks : ∀ fault, step.1 = .error fault →
    fault = .clockOverflow ∧ Clock.horizon ≤ Clock.nanos (l.now + time)

section Runs

variable {α β : Type} {promise : α → Link → Prop} {promise₁ : β → Link → Prop} {fault : Fault}

theorem Runs.of_ok {a : α} (hwithin : l'.now ≤ l.now + time) (h : promise a l') :
    Runs l time promise (.ok a, l') where
  within := hwithin
  keeps := by
    rintro _ ⟨⟩
    exact h
  breaks := nofun

/-- A deadline within the time of a step fails only if the clock ends there. -/
theorem Runs.of_deadline {span : Span} (h : Clock.deadline l'.now span = .error fault)
    (hle : l'.now + span.millisUp ≤ l.now + time) : Runs l time promise (.error fault, l') where
  within := Nat.le_trans (Nat.le_add_right ..) hle
  keeps := nofun
  breaks := by
    rintro _ ⟨⟩
    refine ⟨Clock.fault_of_deadline h, Nat.le_trans (Clock.horizon_le_of_deadline h) ?_⟩
    calc Clock.nanos l'.now + span.nanos
      _ ≤ Clock.nanos l'.now + Clock.nanos span.millisUp :=
        Nat.add_le_add_left (le_mul_roundUp _ (by decide)) _
      _ = Clock.nanos (l'.now + span.millisUp) := (Nat.mul_add ..).symm
      _ ≤ Clock.nanos (l.now + time) := Nat.mul_le_mul_left _ hle

theorem Runs.of_broken (h : Runs l₁ time₁ promise₁ (.error fault, l'))
    (hle : l₁.now + time₁ ≤ l.now + time) : Runs l time promise (.error fault, l') where
  within := Nat.le_trans h.within hle
  keeps := nofun
  breaks := by
    rintro _ ⟨⟩
    obtain ⟨hfault, hend⟩ := h.breaks fault rfl
    exact ⟨hfault, Nat.le_trans hend (Nat.mul_le_mul_left _ hle)⟩

end Runs

/-- An exchange is over within its spans, and it records a delivery of its command. -/
theorem runs_exchange (timing : ScriptTiming) (command : Command) (l : Link) :
    Runs l timing.exchangeTime
      (fun e l' => ∃ d : Delivery, d.command = command ∧ Link.Carries l [d] l' ∧ e.Records d)
      (exchange timing command l) := by
  have hkeeps : ∀ e, (exchange timing command l).1 = .ok e → ∃ d : Delivery, d.command = command ∧
      Link.Carries l [d] (exchange timing command l).2 ∧ e.Records d := by
    intro e he
    obtain ⟨d, hcommand, hcarries, hrecords⟩ := exists_delivery_exchange timing command l
    exact ⟨d, hcommand, hcarries, hrecords e he⟩
  obtain ⟨fault, hsend, hexchange⟩ | ⟨deadline, written, l₁, hsend, hwrite, hend⟩ :=
    exchange_cases timing command l
  · rw [hexchange]
    exact .of_deadline hsend (Nat.add_le_add_left (Nat.le_add_right ..) _)
  obtain ⟨-, rfl⟩ := Clock.of_deadline_eq_ok hsend
  have hsent := l.now_write_le (l.now + timing.send.millisUp) command.bytes
  rw [hwrite, Nat.max_eq_right (Nat.le_add_right ..)] at hsent
  have hwaited : l₁.now + timing.responseWait.millisUp ≤ l.now + timing.exchangeTime := by
    rw [ScriptTiming.exchangeTime, ← Nat.add_assoc]
    exact Nat.add_le_add_right hsent _
  obtain ⟨-, hexchange⟩ | ⟨-, ⟨fault, hwait, hexchange⟩ |
    ⟨deadline', response, l₂, hwait, hread, hexchange⟩⟩ := hend
  · rw [hexchange] at hkeeps ⊢
    exact .of_ok (Nat.le_trans (Nat.le_add_right ..) hwaited) (hkeeps _ rfl)
  · rw [hexchange]
    exact .of_deadline hwait hwaited
  · obtain ⟨-, rfl⟩ := Clock.of_deadline_eq_ok hwait
    have hanswered := now_readText_le (l₁.now + timing.responseWait.millisUp) l₁
    rw [hread, Nat.max_eq_right (Nat.le_add_right ..)] at hanswered
    rw [hexchange] at hkeeps ⊢
    exact .of_ok (Nat.le_trans hanswered hwaited) (hkeeps _ rfl)

/-! ### Exchanges one after the other -/

/-- Exchanges one after the other, each of them at once or after a pause, with the deliveries that
they record. -/
inductive Exchanged (timing : ScriptTiming) : Link → List Delivery → List Exchange → Link → Prop
  | nil (l : Link) : Exchanged timing l [] [] l
  | cons {l l' l'' : Link} {d : Delivery} {ds : List Delivery} {e : Exchange} {es : List Exchange}
      {now : Nat} (hnow : l.now ≤ now)
      (hexchange : exchange timing d.command { l with now } = (.ok e, l'))
      (hcarries : Link.Carries l [d] l') (hrecords : e.Records d)
      (hrest : Exchanged timing l' ds es l'') : Exchanged timing l (d :: ds) (e :: es) l''

/-- Each of the commands has an exchange, in their order. -/
def Serves (timing : ScriptTiming) (commands : List Command) (l : Link) (es : List Exchange)
    (l' : Link) : Prop :=
  ∃ ds : List Delivery, ds.map (·.command) = commands ∧ Exchanged timing l ds es l'

variable {commands : List Command} {es : List Exchange}

theorem Exchanged.map_command {ds : List Delivery} (h : Exchanged timing l ds es l') :
    es.map (·.command) = ds.map (·.command.line) := by
  induction h with
  | nil l => rfl
  | cons hnow hexchange hcarries hrecords hrest ih =>
    rw [List.map_cons, List.map_cons, hrecords.command, ih]

theorem Serves.map_command (h : Serves timing commands l es l') :
    es.map (·.command) = commands.map (·.line) := by
  obtain ⟨ds, rfl, hexchanged⟩ := h
  rw [hexchanged.map_command, List.map_map]
  rfl

/-- An exchange after a pause and those that follow it. -/
theorem Serves.cons {command : Command} {e : Exchange} {now : Nat} (hnow : l.now ≤ now)
    (hexchange : exchange timing command { l with now } = (.ok e, l₁))
    (hrecords : ∃ d : Delivery,
      d.command = command ∧ Link.Carries { l with now } [d] l₁ ∧ e.Records d)
    (h : Serves timing commands l₁ es l') : Serves timing (command :: commands) l (e :: es) l' := by
  obtain ⟨d, rfl, hcarries, hrecords⟩ := hrecords
  obtain ⟨ds, rfl, hexchanged⟩ := h
  have hpaused : Link.Carries l [] { l with now } := .quiet rfl
  exact ⟨d :: ds, rfl, .cons hnow hexchange (hpaused.trans hcarries) hrecords hexchanged⟩

/-- The exchange of an order after a pause of some time, and those of the orders after it. -/
theorem Runs.exchanges_cons {first : Bool} {order : Order} {orders : List Order} {now wait : Nat}
    (hpaused : (if first then l else
      { l with now := l.now + roundUp (Clock.pause timing.pause) Nanos.perMilli } : Link) =
      { l with now })
    (hnow : l.now ≤ now) (hwait : now ≤ l.now + wait)
    (hrest : ∀ l₁, Runs l₁ time (Serves timing (orders.map (.order trader)) l₁)
      (exchanges timing trader false l₁ orders)) :
    Runs l (wait + timing.exchangeTime + time)
      (Serves timing ((order :: orders).map (.order trader)) l)
      (exchanges timing trader first l (order :: orders)) := by
  unfold exchanges
  rw [hpaused]
  have hexchange := runs_exchange timing (.order trader order) { l with now }
  rcases hstep : exchange timing (.order trader order) { l with now } with ⟨result, l₁⟩
  rw [hstep] at hexchange
  have hwithin : l₁.now ≤ now + timing.exchangeTime := hexchange.within
  dsimp only
  rw [hstep]
  cases result with
  | error fault =>
    exact hexchange.of_broken (by dsimp only; omega)
  | ok e =>
    have hlater := hrest l₁
    dsimp only
    rcases hsteps : exchanges timing trader false l₁ orders with ⟨result, l₂⟩
    rw [hsteps] at hlater
    have hlast : l₂.now ≤ l₁.now + time := hlater.within
    cases result with
    | error fault => exact hlater.of_broken (by omega)
    | ok es =>
      refine .of_ok (by omega) ?_
      exact .cons hnow hstep (hexchange.keeps e rfl) (hlater.keeps es rfl)

/-- All orders after the first one have their exchanges, within the time of these and of the pauses
before them. -/
theorem runs_exchanges_later (timing : ScriptTiming) (trader : Trader) (l : Link)
    (orders : List Order) :
    Runs l (orders.length * (timing.pause.millisUp + timing.exchangeTime))
      (Serves timing (orders.map (.order trader)) l) (exchanges timing trader false l orders) := by
  induction orders generalizing l with
  | nil => exact .of_ok (Nat.le_add_right ..) ⟨[], rfl, .nil l⟩
  | cons order orders ih =>
    have hpause : roundUp (Clock.pause timing.pause) Nanos.perMilli ≤ timing.pause.millisUp :=
      roundUp_le_roundUp _ (Nat.min_le_left ..)
    rw [List.length_cons, Nat.add_one_mul, Nat.add_comm]
    exact .exchanges_cons (if_neg Bool.false_ne_true) (Nat.le_add_right ..)
      (Nat.add_le_add_left hpause _) ih

/-- All orders have their exchanges, within the time of these and of the pauses between them. -/
theorem runs_exchanges (timing : ScriptTiming) (trader : Trader) (l : Link) (orders : List Order) :
    Runs l (orders.length * timing.exchangeTime + (orders.length - 1) * timing.pause.millisUp)
      (Serves timing (orders.map (.order trader)) l) (exchanges timing trader true l orders) := by
  cases orders with
  | nil => exact .of_ok (Nat.le_add_right ..) ⟨[], rfl, .nil l⟩
  | cons order orders =>
    have htime : (orders.length + 1) * timing.exchangeTime +
        (orders.length + 1 - 1) * timing.pause.millisUp =
        0 + timing.exchangeTime +
          orders.length * (timing.pause.millisUp + timing.exchangeTime) := by
      rw [Nat.add_one_mul, Nat.mul_add, Nat.add_sub_cancel]
      omega
    rw [List.length_cons, htime]
    exact .exchanges_cons (if_pos rfl) (Nat.le_refl _) (Nat.le_refl _)
      (runs_exchanges_later timing trader · orders)

/-! ### The whole script -/

/-- A transcript of the registration and of all orders of a script that began on a link. -/
structure IsComplete (timing : ScriptTiming) (trader : Trader) (orders : List Order) (l : Link)
    (t : Transcript) : Prop where
  sender : t.trader = trader
  registration : t.registration.command = (Command.register trader).line
  commands : t.orders.map (·.command) = orders.map fun o => (Command.order trader o).line
  served : ∃ l', Serves timing (.register trader :: orders.map (.order trader)) l
    (t.registration :: t.orders) l'
  notifications : ∀ line ∈ t.notifications, line ≠ ""

/-- A connected trader gets a complete transcript. -/
theorem runs_connected (timing : ScriptTiming) (trader : Trader) (orders : List Order) (l : Link) :
    Runs l (timing.connectedTime orders.length)
      (fun t _ => IsComplete timing trader orders l t) (connected timing trader orders l) := by
  have htime : timing.connectedTime orders.length = timing.exchangeTime +
      (orders.length * timing.exchangeTime + (orders.length - 1) * timing.pause.millisUp) +
      timing.listen.millisUp + timing.send.millisUp := by
    rw [ScriptTiming.connectedTime, Nat.add_one_mul]
    omega
  have hregister := runs_exchange timing (.register trader) l
  obtain ⟨fault, l₁, hexchange, hconnected⟩ | ⟨registration, l₁, hexchange, hrest⟩ :=
    connected_cases timing trader orders l
  · rw [hexchange] at hregister
    rw [hconnected]
    exact hregister.of_broken (by omega)
  rw [hexchange] at hregister
  have hregistered : l₁.now ≤ l.now + timing.exchangeTime := hregister.within
  have horders := runs_exchanges timing trader l₁ orders
  obtain ⟨fault, l₂, hexchanges, hconnected⟩ | ⟨es, l₂, hexchanges, hrest⟩ := hrest
  · rw [hexchanges] at horders
    rw [hconnected]
    exact horders.of_broken (by omega)
  rw [hexchanges] at horders
  have hordered : l₂.now ≤ l₁.now + _ := horders.within
  obtain ⟨fault, hwindow, hconnected⟩ | ⟨deadline, notifications, l₃, hwindow, hlisten, hrest⟩ :=
    hrest
  · rw [hconnected]
    exact .of_deadline hwindow (by omega)
  obtain ⟨-, rfl⟩ := Clock.of_deadline_eq_ok hwindow
  have hlistened := now_listen_le (l₂.now + timing.listen.millisUp) l₂
  have hnotifications := ne_empty_of_mem_listen (l₂.now + timing.listen.millisUp) l₂
  rw [hlisten, Nat.max_eq_right (Nat.le_add_right ..)] at hlistened
  rw [hlisten] at hnotifications
  dsimp only at hlistened hnotifications
  obtain ⟨fault, hsend, hconnected⟩ | ⟨deadline', hsend, hconnected⟩ := hrest
  · rw [hconnected]
    exact .of_deadline hsend (by omega)
  obtain ⟨-, rfl⟩ := Clock.of_deadline_eq_ok hsend
  have hleft := l₃.now_farewell_le (l₃.now + timing.send.millisUp)
  rw [Nat.max_eq_right (Nat.le_add_right ..)] at hleft
  have hserved : Serves timing (.register trader :: orders.map (.order trader)) l
      (registration :: es) l₂ :=
    .cons (Nat.le_refl l.now) hexchange (hregister.keeps registration rfl) (horders.keeps es rfl)
  obtain ⟨hfirst, hothers⟩ := List.cons.inj hserved.map_command
  rw [hconnected]
  exact .of_ok (by omega)
    ⟨rfl, hfirst, hothers.trans List.map_map, ⟨l₂, hserved⟩, hnotifications⟩

/-- A script whose spans are whole milliseconds is over within the time that they add up to,
whatever its server does. Unless the clock ends within this time, a failed connection is the only
error, and every connected trader gets a complete transcript. -/
theorem transcript_complete (endpoint : Endpoint) (trader : Trader) (orders : List Order)
    (timing : ScriptTiming) (peer : Peer) (hwhole : timing.WholeMillis)
    (hreturns : ∀ time text,
      connect endpoint.text peer 0 timing.connect.millisUp ≠ .crashed time text) :
    let c := course endpoint trader orders timing peer
    let attempt := connect endpoint.text peer 0 timing.connect.millisUp
    Clock.nanos c.finish ≤ timing.longest orders.length ∧
      (c.result = .error .clockOverflow ∧ Clock.horizon ≤ timing.longest orders.length ∨
        (∀ failure, c.result = .ok (.error failure) ↔ ∃ time, attempt = .failed time failure) ∧
        ((∃ failure, c.result = .ok (.error failure)) ∨
          ∃ l t, attempt = .connected l ∧ c.result = .ok (.ok t) ∧
            IsComplete timing trader orders l t)) := by
  intro c attempt
  obtain ⟨fault, hconnect, hcourse⟩ | ⟨deadline, hconnect, hend⟩ :=
    course_cases endpoint trader orders timing peer
  · have hspan : Clock.nanos timing.connect.millisUp ≤ timing.longest orders.length :=
      hwhole.nanos_le (Nat.le_add_right ..)
    rw [Span.nanos_millisUp hwhole.connect] at hspan
    have hend := Clock.horizon_le_of_deadline hconnect
    rw [Clock.nanos, Nat.mul_zero, Nat.zero_add] at hend
    obtain rfl := Clock.fault_of_deadline hconnect
    rw [show c = _ from hcourse]
    exact ⟨Nat.zero_le _, .inl ⟨rfl, Nat.le_trans hend hspan⟩⟩
  have hattempt := (waits_connect endpoint.text peer hconnect).within
  obtain ⟨-, rfl⟩ := Clock.of_deadline_eq_ok hconnect
  rw [Nat.zero_add] at hattempt hend
  obtain ⟨time, failure, hfailed, hcourse⟩ | ⟨time, text, hcrashed, -⟩ |
    ⟨l, result, l', hlink, hconnected, hcourse⟩ := hend
  · rw [hfailed] at hattempt
    rw [show c = _ from hcourse, show attempt = _ from hfailed]
    have htime := Nat.le_trans hattempt (Nat.le_add_right _ (timing.connectedTime orders.length))
    exact ⟨hwhole.nanos_le htime, .inr ⟨fun failure' => by simp, .inl ⟨failure, rfl⟩⟩⟩
  · exact absurd hcrashed (hreturns time text)
  · rw [hlink] at hattempt
    rw [show c = _ from hcourse, show attempt = _ from hlink]
    have hruns := runs_connected timing trader orders l
    rw [hconnected] at hruns
    refine ⟨hwhole.nanos_le (Nat.le_trans hruns.within (Nat.add_le_add_right hattempt _)), ?_⟩
    cases result with
    | error fault =>
      obtain ⟨rfl, hhorizon⟩ := hruns.breaks fault rfl
      exact .inl ⟨rfl, Nat.le_trans hhorizon (hwhole.nanos_le (Nat.add_le_add_right hattempt _))⟩
    | ok t =>
      have hcomplete := hruns.keeps t rfl
      refine .inr ⟨fun failure => iff_of_false ?_ ?_, .inr ⟨l, t, rfl, rfl, hcomplete⟩⟩
      · intro h
        cases h
      · rintro ⟨time, h⟩
        cases h

/-- A server that takes the connection at the last moment, confirms the registration at the last
moment and takes nothing after that: all orders have their exchanges, and the notifications of the
last moment are in the transcript. -/
theorem transcript_complete_stalled :
    let timing := ScriptTiming.standard
    let peer : Peer :=
      { Peer.quiet with
        delay := some 5000
        greeting := [⟨8500, .data (Utf8.encode "FILL:1\r\n\nFILL:2\n")⟩]
        replies := [[⟨500, .data (Utf8.encode "REGISTERED:a\n")⟩]]
        windows := [⟨1, none, .stall⟩]
        farewell := .stall }
    let c := course ⟨"mock", 8888⟩ ⟨"a"⟩ standard timing peer
    let l : Link := ⟨5000, .opening peer 5000⟩
    let t : Transcript :=
      { trader := ⟨"a"⟩
        registration := ⟨"REGISTER:a\n", some "REGISTERED:a"⟩
        orders :=
          [⟨"ORDER:a:AAPL:BUY:LIMIT:150.50:10\n", none⟩,
            ⟨"ORDER:a:AAPL:SELL:LIMIT:151.00:5\n", none⟩,
            ⟨"ORDER:a:GOOGL:BUY:LIMIT:2800.00:2\n", none⟩]
        notifications := ["FILL:1", "FILL:2"] }
    timing.WholeMillis ∧
      (∀ time text, connect "mock:8888" peer 0 timing.connect.millisUp ≠ .crashed time text) ∧
      c.result = .ok (.ok t) ∧ IsComplete timing ⟨"a"⟩ standard l t ∧
      Clock.nanos c.finish ≤ 17000 * Nanos.perMilli := by
  intro timing peer c l t
  have hwhole : timing.WholeMillis := by
    constructor
    all_goals decide
  have hconnected : connect "mock:8888" peer 0 timing.connect.millisUp = .connected l := by
    have hmillis : timing.connect.millisUp = 5000 := by decide +kernel
    rw [hmillis]
    rfl
  have hreturns (time : Nat) (text : Option String) :
      connect "mock:8888" peer 0 timing.connect.millisUp ≠ .crashed time text := by
    rw [hconnected]
    nofun
  have hresult : c.result = .ok (.ok t) := by decide +kernel
  have hlongest : timing.longest standard.length = 17000 * Nanos.perMilli := by decide +kernel
  obtain ⟨htime, ⟨hbroken, -⟩ | ⟨-, ⟨failure, hfailed⟩ | ⟨l', t', hlink, hresult', hcomplete⟩⟩⟩ :=
    transcript_complete ⟨"mock", 8888⟩ ⟨"a"⟩ standard timing peer hwhole hreturns
  · cases hresult.symm.trans hbroken
  · cases hresult.symm.trans hfailed
  · obtain rfl := Attempt.connected.inj (hconnected.symm.trans hlink)
    obtain rfl := Except.ok.inj (Except.ok.inj (hresult.symm.trans hresult'))
    rw [hlongest] at htime
    exact ⟨hwhole, hreturns, hresult, hcomplete, htime⟩

/-- Whoever is connected and is to listen for as long as a span lasts meets the end of the clock. -/
theorem endless_listening_breaks :
    let timing : ScriptTiming :=
      { ScriptTiming.standard with listen := .ofMillis (1000 * (2 ^ 64 - 1)) }
    timing.WholeMillis ∧
      connect "mock:8888" .quiet 0 timing.connect.millisUp = .connected ⟨0, .opening .quiet 0⟩ ∧
      (course ⟨"mock", 8888⟩ ⟨"a"⟩ standard timing .quiet).result = .error .clockOverflow := by
  intro timing
  have hmillis : timing.connect.millisUp = 5000 := by decide +kernel
  refine ⟨?_, ?_, ?_⟩
  · constructor
    all_goals decide +kernel
  · rw [hmillis]
    rfl
  · decide +kernel

end Script

end MarketLoad
