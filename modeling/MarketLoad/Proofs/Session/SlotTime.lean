import MarketLoad.Proofs.Session.Faults
import MarketLoad.Run.Result

/-!
# How long a session holds its slot

Every step of a session waits for one deadline of its own, or for a slot of its window. So a session
takes no longer than its spans add up to, whatever its server does and whether or not its worker
breaks (`Session.waits_course`, `Session.slot_time_bounded`). Registration reads under a single
deadline and within a limit of bytes (`Registration.waits_perform`,
`Registration.awaitIn_ackLimit`);
the window ends with its last cycle or with the slot that follows it, whichever is later
(`Trading.waits_serveFrom`).
-/

namespace MarketLoad

open Venue

/-! ### Registering -/

namespace Registration

theorem now_await (deadline : Nat) (received : Bytes) (l : Link) :
    l.now ≤ (await deadline received l).2.now ∧
      (await deadline received l).2.now ≤ max l.now deadline := by
  have hread {received : Received} {l l' : Link} (h : l.read deadline = (received, l')) :
      l.now ≤ l'.now ∧ l'.now ≤ max l.now deadline := by
    have hle := l.now_le_read deadline
    have hmax := l.now_read_le deadline
    rw [h] at hle hmax
    exact ⟨hle, hmax⟩
  induction received, l using await.induct deadline with
  | case1 received l l' h => rw [await, h]; exact hread h
  | case2 received l l' h => rw [await, h]; exact hread h
  | case3 received l reason l' h => rw [await, h]; exact hread h
  | case4 received l first rest l' h _ hack => rw [await_of_data h, if_pos hack]; exact hread h
  | case5 received l first rest l' h _ hack hstop =>
    rw [await_of_data h, if_neg hack, if_pos hstop]
    exact hread h
  | case6 received l first rest l' h _ hack hstop ih =>
    rw [await_of_data h, if_neg hack, if_neg hstop]
    obtain ⟨hle, hmax⟩ := hread h
    obtain ⟨hle', hmax'⟩ := ih
    exact ⟨Nat.le_trans hle hle', Nat.le_trans hmax' (Nat.max_le.2 ⟨hmax, Nat.le_max_right ..⟩)⟩

/-- All reads of a registration share the deadline of its writing. -/
theorem waits_perform {deadline : Nat} {span : Span} {l : Link} (trader : Trader)
    (h : Clock.deadline l.now span = .ok deadline) :
    Clock.Waits l.now span.millisUp (perform trader deadline l).2.now := by
  have hle := l.now_le_write deadline (Command.register trader).bytes
  have hmax := l.now_write_le deadline (Command.register trader).bytes
  unfold perform
  rcases hw : l.write deadline (Command.register trader).bytes with ⟨written, l'⟩
  rw [hw] at hle hmax
  cases written with
  | done =>
    obtain ⟨hle', hmax'⟩ := now_await deadline [] l'
    exact .of_deadline h (Nat.le_trans hle hle') (by dsimp only at hmax ⊢; omega)
  | failed reason => exact .of_deadline h hle hmax
  | timedOut => exact .of_deadline h hle hmax

/-- Reads on like `await`, but gives up without a result after so many reads. -/
def awaitIn (deadline : Nat) :
    (reads : Nat) → Bytes → Link → Option (Except RegistrationFailure Unit × Link)
  | 0, _, _ => none
  | reads + 1, received, l =>
    match l.read deadline with
    | (.ended, l) => some (.error (stopped received .closed), l)
    | (.timedOut, l) => some (.error (stopped received .timeout), l)
    | (.failed reason, l) => some (.error (.io reason), l)
    | (.data first rest, l) =>
      let received' := received ++ first :: rest
      if acknowledgesRegistration received' then some (.ok (), l)
      else if received'.contains newline ∨ ackLimit ≤ received'.length then
        some (.error (unrecognized received'), l)
      else awaitIn deadline reads received' l

theorem awaitIn_eq_await (deadline : Nat) {reads : Nat} {received : Bytes} (l : Link)
    (hlimit : received.length < ackLimit) (hreads : ackLimit ≤ received.length + reads) :
    awaitIn deadline reads received l = some (await deadline received l) := by
  induction reads generalizing received l with
  | zero => exact absurd hlimit (Nat.not_lt.2 hreads)
  | succ reads ih =>
    unfold awaitIn
    rcases hread : l.read deadline with ⟨result, l'⟩
    cases result with
    | ended => rw [await, hread]
    | timedOut => rw [await, hread]
    | failed reason => rw [await, hread]
    | data first rest =>
      rw [await_of_data hread]
      by_cases hack : acknowledgesRegistration (received ++ first :: rest)
      · simp only [if_pos hack]
      · by_cases hstop : (received ++ first :: rest).contains newline ∨
            ackLimit ≤ (received ++ first :: rest).length
        · simp only [if_neg hack, if_pos hstop]
        · simp only [if_neg hack, if_neg hstop]
          rw [not_or, Nat.not_le] at hstop
          apply ih _ hstop.2
          rw [List.length_append, List.length_cons]
          omega

/-- Waiting for an acknowledgement takes no more reads than bytes are taken for one. -/
theorem awaitIn_ackLimit (deadline : Nat) (l : Link) :
    awaitIn deadline ackLimit [] l = some (await deadline [] l) :=
  awaitIn_eq_await deadline l (by decide) (Nat.le_add_left ..)

end Registration

/-! ### Trading -/

/-- The milliseconds within which a trading window is over. The last cycle begins in the window and
may wait for its writing and for its reply; a client that was late for a slot may wait for one a
period after the window. -/
def SessionSettings.windowTime (s : SessionSettings) : Nat :=
  max (roundUp (s.duration.nanos + Clock.pause s.interval) Nanos.perMilli)
    (s.duration.millis + (s.timeouts.send.millisUp + s.timeouts.drain.millisUp))

namespace Trading

variable {s : SessionSettings} {opened slot time : Nat} {flow flow' : OrderFlow}
  {tally tally' : Tally} {l l' : Link} {served : Served}

theorem waits_awaitReply (timeouts : Timeouts) (start : Nat) (l : Link) :
    Clock.Waits l.now timeouts.drain.millisUp (awaitReply timeouts start l).2.now := by
  unfold awaitReply
  cases hd : Clock.deadline l.now timeouts.drain with
  | error fault => exact (Clock.Waits.refl _).mono (Nat.zero_le _)
  | ok deadline =>
    have hread := Clock.Waits.of_deadline hd (l.now_le_read deadline) (l.now_read_le deadline)
    dsimp only
    rcases hr : l.read deadline with ⟨received, l'⟩
    rw [hr] at hread
    cases received with
    | data first rest => exact hread
    | ended => exact hread
    | failed reason => exact hread
    | timedOut => exact hread

theorem waits_sendOrder (timeouts : Timeouts) (command : Command) (l : Link) :
    Clock.Waits l.now (timeouts.send.millisUp + timeouts.drain.millisUp)
      (sendOrder timeouts command l).2.now := by
  unfold sendOrder
  cases hd : Clock.deadline l.now timeouts.send with
  | error fault => exact (Clock.Waits.refl _).mono (Nat.zero_le _)
  | ok deadline =>
    have hwrite := Clock.Waits.of_deadline hd (l.now_le_write deadline command.bytes)
      (l.now_write_le deadline command.bytes)
    dsimp only
    rcases hw : l.write deadline command.bytes with ⟨written, l'⟩
    rw [hw] at hwrite
    cases written with
    | done => exact hwrite.trans (waits_awaitReply timeouts l.now l')
    | failed reason => exact hwrite.mono (Nat.le_add_right ..)
    | timedOut => exact hwrite.mono (Nat.le_add_right ..)

theorem waits_cycle (slot : Nat) (flow : OrderFlow) (l : Link) :
    Clock.Waits l.now (s.timeouts.send.millisUp + s.timeouts.drain.millisUp)
      (cycle s slot flow l).2.2.now := by
  unfold cycle
  split
  · exact (Clock.Waits.refl _).mono (Nat.zero_le _)
  · exact (Clock.Waits.refl _).mono (Nat.zero_le _)
  · exact waits_sendOrder ..

theorem nextSlot_le {interval bound : Nat} (hslot : slot ≤ bound) (htime : time ≤ bound) :
    nextSlot interval slot time ≤ bound + interval := by
  unfold nextSlot
  split
  · omega
  · omega

/-- A slot that comes no later than a period after the window is waited for within the time of the
window. -/
theorem waits_expire (hopened : Clock.reaches (Clock.nanos opened) s.duration = true)
    (hslot : slot ≤ s.duration.nanos + Clock.pause s.interval)
    (h : Clock.Waits opened s.windowTime l.now) :
    Clock.Waits opened s.windowTime (l.expire (opened + roundUp slot Nanos.perMilli)).now := by
  have hround := roundUp_le_roundUp Nanos.perMilli hslot
  have hlatest : opened + roundUp slot Nanos.perMilli ≤ Clock.latest := by
    apply Clock.le_latest
    have hlt := mul_roundUp_lt slot (show 0 < Nanos.perMilli by decide)
    have hpause : Clock.pause s.interval ≤ Clock.longestPause := Nat.min_le_right ..
    rw [Clock.reaches_iff] at hopened
    rw [Clock.nanos, Nat.mul_add]
    unfold Clock.nanos at hopened
    omega
  have hwindow : roundUp slot Nanos.perMilli ≤ s.windowTime :=
    Nat.le_trans hround (Nat.le_max_left ..)
  obtain ⟨hle, hwithin, hearly⟩ := h
  refine ⟨?_, ?_, ?_⟩
  · exact Nat.le_trans hle (Nat.le_max_left ..)
  · exact Nat.max_le.2 ⟨hwithin, Nat.add_le_add_left hwindow _⟩
  · exact Nat.max_le.2 ⟨hearly, Nat.le_trans hlatest (Nat.le_max_right ..)⟩

/-- Serving a slot ends within the time of the window, and the next slot comes no later than a
period after the window. -/
theorem waits_serve (hopened : Clock.reaches (Clock.nanos opened) s.duration = true)
    (hslot : slot ≤ s.duration.nanos + Clock.pause s.interval)
    (h : Clock.Waits opened s.windowTime l.now)
    (hs : serve s opened slot flow tally l = (served, tally', l')) :
    Clock.Waits opened s.windowTime l'.now ∧ ∀ time flow', served = .more time flow' →
      nextSlot (Clock.pause s.interval) slot time ≤ s.duration.nanos + Clock.pause s.interval := by
  have hopens := waits_expire hopened hslot h
  obtain ⟨-, rfl, rfl, rfl⟩ | ⟨hwindow, hage, c, flow', hcycle, -, hend⟩ := serve_cases hs rfl
  · exact ⟨hopens, nofun⟩
  · generalize l.expire (opened + roundUp slot Nanos.perMilli) = opens at hopens hage hcycle hend
    have hwaits := waits_cycle (s := s) slot flow opens
    rw [hcycle] at hwaits
    -- The cycle begins in the window, so at a whole millisecond of it.
    have hbegins : opens.now ≤ opened + s.duration.millis := by
      have hmillis : opens.now - opened ≤ s.duration.millis :=
        (Nat.le_div_iff_mul_le (by decide)).2 (Nat.mul_comm .. ▸ hage)
      omega
    have htime : s.duration.millis + (s.timeouts.send.millisUp + s.timeouts.drain.millisUp) ≤
        s.windowTime := Nat.le_max_right ..
    refine ⟨⟨Nat.le_trans hopens.le hwaits.le, ?_, (hopens.trans hwaits).early⟩, ?_⟩
    · exact Nat.le_trans hwaits.within (by omega)
    · rintro time flow'' rfl
      obtain ⟨fault, hbroken, -⟩ | ⟨-, hlast | hmore⟩ := hend
      · cases hbroken
      · cases hlast
      · cases hmore
        exact nextSlot_le hwindow hage

/-- All slots are served within the time of the window. -/
theorem waits_serveFrom (hopened : Clock.reaches (Clock.nanos opened) s.duration = true)
    (hslot : slot ≤ s.duration.nanos + Clock.pause s.interval)
    (h : Clock.Waits opened s.windowTime l.now) :
    Clock.Waits opened s.windowTime (serveFrom s opened slot flow tally l).2.2.now := by
  induction slot, flow, tally, l using serveFrom.induct s opened with
  | case1 slot flow tally l fault tally' l' hs =>
    rw [serveFrom_of_broken hs]
    exact (waits_serve hopened hslot h hs).1
  | case2 slot flow tally l tally' l' hs =>
    rw [serveFrom_of_last hs]
    exact (waits_serve hopened hslot h hs).1
  | case3 slot flow tally l time flow' tally' l' hs hmore ih =>
    obtain ⟨hwaits, hnext⟩ := waits_serve hopened hslot h hs
    rw [serveFrom_of_more hs hmore]
    exact ih (hnext time flow' rfl) hwaits
  | case4 slot flow tally l time flow' tally' l' hs hmore =>
    rw [serveFrom_of_only hs hmore]
    exact (waits_serve hopened hslot h hs).1

theorem waits_perform (s : SessionSettings) (l : Link) :
    Clock.Waits l.now s.windowTime (perform s l).2.2.now := by
  have hstart : Clock.Waits l.now s.windowTime l.now :=
    (Clock.Waits.refl l.now).mono (Nat.zero_le _)
  unfold perform
  by_cases hreach : Clock.reaches (Clock.nanos l.now) s.duration = true
  · rw [if_pos hreach]
    exact waits_serveFrom hreach (Nat.zero_le _) hstart
  · rw [if_neg hreach]
    exact hstart

end Trading

/-! ### The session -/

/-- The milliseconds within which a session gives its slot back. -/
def SessionSettings.slotTime (s : SessionSettings) : Nat :=
  s.timeouts.connect.millisUp + (s.timeouts.registerAck.millisUp + (s.windowTime +
    s.timeouts.send.millisUp))

/-- The spans of a session are whole milliseconds. -/
structure SessionSettings.WholeMillis (s : SessionSettings) : Prop where
  connect : Nanos.perMilli ∣ s.timeouts.connect.nanos
  registerAck : Nanos.perMilli ∣ s.timeouts.registerAck.nanos
  send : Nanos.perMilli ∣ s.timeouts.send.nanos
  drain : Nanos.perMilli ∣ s.timeouts.drain.nanos
  duration : Nanos.perMilli ∣ s.duration.nanos
  interval : Nanos.perMilli ∣ s.interval.nanos

namespace SessionSettings

variable {s : SessionSettings}

theorem WholeMillis.nanos_windowTime_le (h : s.WholeMillis) :
    Clock.nanos s.windowTime ≤
      s.duration.nanos + max s.interval.nanos (s.timeouts.send.nanos + s.timeouts.drain.nanos) := by
  have hpause : Clock.pause s.interval ≤ s.interval.nanos := Nat.min_le_left ..
  have hlong : Nanos.perMilli ∣ Clock.longestPause := by decide
  have hperiod : Nanos.perMilli ∣ s.duration.nanos + Clock.pause s.interval := by
    refine (Nat.dvd_add_right h.duration).2 ?_
    unfold Clock.pause
    rcases Nat.le_total s.interval.nanos Clock.longestPause with hle | hle
    · rw [Nat.min_eq_left hle]
      exact h.interval
    · rwa [Nat.min_eq_right hle]
  have hslot : Clock.nanos (roundUp (s.duration.nanos + Clock.pause s.interval) Nanos.perMilli) =
      s.duration.nanos + Clock.pause s.interval := mul_roundUp_of_dvd (by decide) hperiod
  have hmillis : Clock.nanos s.duration.millis = s.duration.nanos :=
    Nat.mul_div_cancel' h.duration
  have hsend := Span.nanos_millisUp h.send
  have hdrain := Span.nanos_millisUp h.drain
  unfold windowTime
  unfold Clock.nanos at hslot hmillis hsend hdrain ⊢
  rw [← Nat.mul_max_mul_left, Nat.mul_add, Nat.mul_add, hslot, hmillis, hsend, hdrain]
  omega

theorem WholeMillis.nanos_slotTime_le (h : s.WholeMillis) :
    Clock.nanos s.slotTime ≤ s.timeouts.connect.nanos + s.timeouts.registerAck.nanos +
      s.duration.nanos + max s.interval.nanos (s.timeouts.send.nanos + s.timeouts.drain.nanos) +
      s.timeouts.send.nanos := by
  have hwindow := h.nanos_windowTime_le
  have hconnect := Span.nanos_millisUp h.connect
  have hack := Span.nanos_millisUp h.registerAck
  have hsend := Span.nanos_millisUp h.send
  unfold slotTime
  unfold Clock.nanos at hwindow hconnect hack hsend ⊢
  rw [Nat.mul_add, Nat.mul_add, Nat.mul_add, hconnect, hack, hsend]
  omega

end SessionSettings

namespace Session

variable {start : Nat} {s : SessionSettings} {peer : Peer}

theorem waits_connected (start : Nat) (s : SessionSettings) (l : Link) :
    Clock.Waits l.now (s.timeouts.registerAck.millisUp + (s.windowTime + s.timeouts.send.millisUp))
      (connected start s l).finish := by
  obtain ⟨fault, -, hcourse⟩ | ⟨deadline, registration, l₁, broke, tally, l₂, hack, hregistration,
    htrading, hend⟩ := connected_cases start s l
  · rw [hcourse]
    exact (Clock.Waits.refl _).mono (Nat.zero_le _)
  · have hregister := Registration.waits_perform s.trader hack
    have hwindow := Trading.waits_perform s l₁
    rw [hregistration] at hregister
    rw [htrading] at hwindow
    refine hregister.trans ?_
    obtain ⟨fault, -, hcourse⟩ | ⟨-, deadline', hsend, hcourse⟩ := hend
    · rw [hcourse]
      exact hwindow.mono (Nat.le_add_right ..)
    · rw [hcourse]
      exact hwindow.trans (.of_deadline hsend (l₂.now_le_farewell deadline')
        (l₂.now_farewell_le deadline'))

/-- A session gives its slot back within the time that its spans add up to. -/
theorem waits_course (start : Nat) (s : SessionSettings) (peer : Peer) :
    Clock.Waits start s.slotTime (course start s peer).finish := by
  obtain ⟨fault, -, hcourse⟩ | ⟨deadline, hconnect, hattempt⟩ := course_cases start s peer
  · rw [hcourse]
    exact (Clock.Waits.refl _).mono (Nat.zero_le _)
  · have hwaits := waits_connect s.endpoint.text peer hconnect
    obtain ⟨time, failure, h, hcourse⟩ | ⟨time, text, h, hcourse⟩ | ⟨l, h, hcourse⟩ := hattempt
    · rw [h] at hwaits
      rw [hcourse]
      exact hwaits.mono (Nat.le_add_right ..)
    · rw [h] at hwaits
      rw [hcourse]
      exact hwaits.mono (Nat.le_add_right ..)
    · rw [h] at hwaits
      rw [hcourse]
      exact hwaits.trans (waits_connected start s l)

theorem length_cycles_course_le (start : Nat) (s : SessionSettings) (peer : Peer) :
    (course start s peer).cycles.length ≤ s.duration.nanos / Clock.pause s.interval + 1 := by
  obtain hnone | ⟨l, hcycles⟩ := exists_window start s peer
  · rw [hnone]
    exact Nat.zero_le _
  · rw [hcycles, List.length_reverse]
    exact Trading.length_cycles_perform_le s l

/-- An outcome tells the time for which its session held the slot, in whichever way that ended. -/
theorem elapsed_outcome_course (start : Nat) (s : SessionSettings) (peer : Peer) :
    ((course start s peer).outcome s.trader).elapsed =
      .ofMillis ((course start s peer).finish - start) := by
  have hstart := start_course start s peer
  unfold Course.outcome
  cases hresult : (course start s peer).result with
  | error fault => exact congrArg (fun time => Span.ofMillis (_ - time)) hstart
  | ok o =>
    dsimp only
    obtain ⟨fault, -, hcourse⟩ | ⟨deadline, -, ⟨time, failure, -, hcourse⟩ |
      ⟨time, text, -, hcourse⟩ | ⟨l, -, hcourse⟩⟩ := course_cases start s peer
    · rw [hcourse] at hresult
      cases hresult
    · rw [hcourse] at hresult ⊢
      simp only [unconnected, Outcome.failed] at hresult
      split at hresult
      · cases hresult
        rfl
      · cases hresult
    · rw [hcourse] at hresult
      cases hresult
    · rw [hcourse] at hresult ⊢
      obtain ⟨_, _, _, _, _, _, -, -, -, rfl, hfinish, -⟩ := connected_of_ok hresult
      rw [hfinish]
      rfl

/-- A session whose spans are whole milliseconds gives its slot back within the time that they add
up to, with the last cycle or the slot after it counted once, whatever its server does; and so its
outcome tells, even if its worker breaks. Registration ends within a limit of reads, and trading
within the cycles that fit the window, one if there is no interval. The worker breaks only if there
is cause. -/
theorem slot_time_bounded (start : Nat) (s : SessionSettings) (peer : Peer) (h : s.WholeMillis) :
    let c := course start s peer
    let bound := s.timeouts.connect.nanos + s.timeouts.registerAck.nanos + s.duration.nanos +
      max s.interval.nanos (s.timeouts.send.nanos + s.timeouts.drain.nanos) + s.timeouts.send.nanos
    start ≤ c.finish ∧ Clock.nanos (c.finish - start) ≤ bound ∧
    (c.outcome s.trader).elapsed.nanos ≤ bound ∧
    (∀ deadline l, Registration.awaitIn deadline Registration.ackLimit [] l =
      some (Registration.await deadline [] l)) ∧
    c.cycles.length ≤ s.duration.nanos / Clock.pause s.interval + 1 ∧
    ∀ fault, c.result = .error fault → Breaks s peer c.finish fault := by
  intro c bound
  obtain ⟨hle, hwithin, -⟩ := waits_course start s peer
  have hbound : Clock.nanos (c.finish - start) ≤ bound :=
    calc Clock.nanos (c.finish - start)
      _ ≤ Clock.nanos s.slotTime := Nat.mul_le_mul_left _ (Nat.sub_le_iff_le_add'.2 hwithin)
      _ ≤ bound := h.nanos_slotTime_le
  refine ⟨hle, hbound, ?_, Registration.awaitIn_ackLimit, length_cycles_course_le start s peer,
    fun _ => breaks_of_course⟩
  rw [elapsed_outcome_course]
  exact Nat.le_trans (Nat.min_le_left ..) hbound

/-- A server that uses up every deadline: it accepts, takes the order and takes leave as late as it
may, and answers nothing. The time of the session is then the bound. -/
theorem slot_time_bounded_slow :
    let s : SessionSettings :=
      { SessionSettings.standard ⟨"a"⟩ ⟨"mock", 8888⟩ ⟨[⟨⟨"X"⟩, .ofUInt64 100⟩]⟩ with
        duration := .zero, interval := .ofMillis 1000 }
    let peer : Peer :=
      { Peer.quiet with
        delay := some 5000, windows := [⟨1, some 2000, .stall⟩], farewell := .stall }
    let bound := s.timeouts.connect.nanos + s.timeouts.registerAck.nanos + s.duration.nanos +
      max s.interval.nanos (s.timeouts.send.nanos + s.timeouts.drain.nanos) + s.timeouts.send.nanos
    s.WholeMillis ∧ bound = 8100 * Nanos.perMilli ∧
      ((course 0 s peer).outcome s.trader).elapsed.nanos = bound ∧
      ((course 0 s peer).outcome s.trader).sent = 1 ∧
      Clock.nanos ((course 0 s peer).finish - 0) ≤ bound := by
  intro s peer bound
  have hwhole : s.WholeMillis := by
    constructor
    all_goals decide +kernel
  obtain ⟨helapsed, hsent⟩ :
      ((course 0 s peer).outcome s.trader).elapsed.nanos = 8100 * Nanos.perMilli ∧
        ((course 0 s peer).outcome s.trader).sent = 1 := by
    decide +kernel
  have hbound : bound = 8100 * Nanos.perMilli := by decide +kernel
  exact ⟨hwhole, hbound, helapsed.trans hbound.symm, hsent, (slot_time_bounded 0 s peer hwhole).2.1⟩

end Session

end MarketLoad
