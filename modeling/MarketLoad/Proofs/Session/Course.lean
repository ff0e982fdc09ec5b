import MarketLoad.Session.Course

/-!
# The ways a session takes

A session breaks, fails to connect or is connected (`Session.course_cases`), and a connected session
breaks or trades to the end of its window (`Session.connected_cases`, `Session.connected_of_ok`). Its
cycles are those of the window (`Session.exists_window`).
-/

namespace MarketLoad

open Venue

/-- A connection is made by a server that accepts in time, and it is new. -/
theorem Venue.of_connect_eq_connected {endpoint : String} {peer : Peer} {start deadline : Nat}
    {l : Link} (h : connect endpoint peer start deadline = .connected l) :
    ∃ delay, peer.delay = some delay ∧ start + delay ≤ deadline ∧ peer.reception = .accept ∧
      l = ⟨start + delay, .opening peer (start + delay)⟩ := by
  unfold connect at h
  cases hdelay : peer.delay with
  | none => rw [hdelay] at h; cases h
  | some delay =>
    rw [hdelay] at h
    dsimp only at h
    split at h
    · cases h
    · rename_i htime
      split at h
      · rename_i hreception
        cases h
        exact ⟨delay, rfl, Nat.le_of_not_lt htime, hreception, rfl⟩
      · cases h
      · cases h
      · cases h

namespace Session

variable {start : Nat} {s : SessionSettings} {peer : Peer}

theorem course_cases (start : Nat) (s : SessionSettings) (peer : Peer) :
    (∃ fault, Clock.deadline start s.timeouts.connect = .error fault ∧
      course start s peer = broken start fault start none []) ∨
    ∃ deadline, Clock.deadline start s.timeouts.connect = .ok deadline ∧
      ((∃ time failure, connect s.endpoint.text peer start deadline = .failed time failure ∧
          course start s peer = unconnected start s time failure) ∨
        (∃ time text, connect s.endpoint.text peer start deadline = .crashed time text ∧
          course start s peer = broken start (.crash text) time none []) ∨
        ∃ l, connect s.endpoint.text peer start deadline = .connected l ∧
          course start s peer = connected start s l) := by
  unfold course
  cases hdeadline : Clock.deadline start s.timeouts.connect with
  | error fault => exact .inl ⟨fault, rfl, rfl⟩
  | ok deadline =>
    refine .inr ⟨deadline, rfl, ?_⟩
    dsimp only
    cases hconnect : connect s.endpoint.text peer start deadline with
    | failed time failure => exact .inl ⟨time, failure, rfl, rfl⟩
    | crashed time text => exact .inr (.inl ⟨time, text, rfl, rfl⟩)
    | connected l => exact .inr (.inr ⟨l, rfl, rfl⟩)

/-- A connected session breaks at once, or it registers and trades; then its worker is broken or
breaks, or it says farewell. -/
theorem connected_cases (start : Nat) (s : SessionSettings) (l : Link) :
    (∃ fault, Clock.deadline l.now s.timeouts.registerAck = .error fault ∧
      connected start s l = broken start fault l.now l.connection []) ∨
    ∃ deadline registration l₁ broke tally l₂,
      Clock.deadline l.now s.timeouts.registerAck = .ok deadline ∧
      Registration.perform s.trader deadline l = (registration, l₁) ∧
      Trading.perform s l₁ = (broke, tally, l₂) ∧
      ((∃ fault,
          (broke = some fault ∨
            broke = none ∧ Clock.deadline l₂.now s.timeouts.send = .error fault) ∧
          connected start s l =
            broken start fault l₂.now l₂.connection tally.cycles.reverse) ∨
        broke = none ∧ ∃ deadline', Clock.deadline l₂.now s.timeouts.send = .ok deadline' ∧
          connected start s l =
            { start
              result := .ok (traded s registration tally
                (.ofMillis ((l₂.farewell deadline').now - start)))
              finish := (l₂.farewell deadline').now
              connection := (l₂.farewell deadline').connection
              cycles := tally.cycles.reverse }) := by
  unfold connected
  cases hack : Clock.deadline l.now s.timeouts.registerAck with
  | error fault => exact .inl ⟨fault, rfl, rfl⟩
  | ok deadline =>
    rcases hregistration : Registration.perform s.trader deadline l with ⟨registration, l₁⟩
    rcases htrading : Trading.perform s l₁ with ⟨broke, tally, l₂⟩
    refine .inr ⟨deadline, registration, l₁, broke, tally, l₂, rfl, hregistration, htrading, ?_⟩
    dsimp only
    rw [hregistration]
    dsimp only
    rw [htrading]
    cases broke with
    | some fault => exact .inl ⟨fault, .inl rfl, rfl⟩
    | none =>
      dsimp only
      cases hsend : Clock.deadline l₂.now s.timeouts.send with
      | error fault => exact .inl ⟨fault, .inr ⟨rfl, rfl⟩, rfl⟩
      | ok deadline' => exact .inr ⟨rfl, deadline', rfl, rfl⟩

/-- A session with a connection is connected once the server has answered. -/
theorem course_connected {conn : Connection} (h : (course start s peer).connection = some conn) :
    ∃ delay, peer.delay = some delay ∧
      course start s peer = connected start s ⟨start + delay, .opening peer (start + delay)⟩ := by
  obtain ⟨fault, -, hcourse⟩ | ⟨deadline, -, ⟨time, failure, -, hcourse⟩ |
    ⟨time, text, -, hcourse⟩ | ⟨l, hconnect, hcourse⟩⟩ := course_cases start s peer
  · rw [hcourse] at h; cases h
  · rw [hcourse] at h; cases h
  · rw [hcourse] at h; cases h
  · obtain ⟨delay, hdelay, -, -, rfl⟩ := of_connect_eq_connected hconnect
    exact ⟨delay, hdelay, hcourse⟩

/-- A connected session whose worker does not break registers, trades and says farewell. -/
theorem connected_of_ok {l : Link} {o : Outcome} (h : (connected start s l).result = .ok o) :
    ∃ deadline registration l₁ tally l₂ deadline',
      Clock.deadline l.now s.timeouts.registerAck = .ok deadline ∧
      Registration.perform s.trader deadline l = (registration, l₁) ∧
      Trading.perform s l₁ = (none, tally, l₂) ∧
      o = traded s registration tally (.ofMillis ((l₂.farewell deadline').now - start)) ∧
      (connected start s l).finish = (l₂.farewell deadline').now ∧
      (connected start s l).connection = some (l₂.farewell deadline').connection ∧
      (connected start s l).cycles = tally.cycles.reverse := by
  obtain ⟨fault, -, hcourse⟩ | ⟨deadline, registration, l₁, broke, tally, l₂, hack, hregistration,
    htrading, ⟨fault, -, hcourse⟩ | ⟨rfl, deadline', -, hcourse⟩⟩ := connected_cases start s l
  · rw [hcourse] at h; cases h
  · rw [hcourse] at h; cases h
  · rw [hcourse] at h ⊢
    cases h
    exact ⟨deadline, registration, l₁, tally, l₂, deadline', hack, hregistration, htrading, rfl, rfl,
      rfl, rfl⟩

/-- The cycles of a session are those of its window, if it gets there. -/
theorem exists_window (start : Nat) (s : SessionSettings) (peer : Peer) :
    (course start s peer).cycles = [] ∨
      ∃ l, (course start s peer).cycles = (Trading.perform s l).2.1.cycles.reverse := by
  obtain ⟨fault, -, hcourse⟩ | ⟨deadline, -, ⟨time, failure, -, hcourse⟩ |
    ⟨time, text, -, hcourse⟩ | ⟨l, -, hcourse⟩⟩ := course_cases start s peer
  · exact .inl (congrArg Course.cycles hcourse)
  · exact .inl (congrArg Course.cycles hcourse)
  · exact .inl (congrArg Course.cycles hcourse)
  rw [hcourse]
  obtain ⟨fault, -, hconnected⟩ | ⟨deadline, registration, l₁, broke, tally, l₂, -, -, htrading,
    ⟨fault, -, hconnected⟩ | ⟨-, deadline', -, hconnected⟩⟩ := connected_cases start s l
  · exact .inl (congrArg Course.cycles hconnected)
  · exact .inr ⟨l₁, by rw [hconnected, htrading]; rfl⟩
  · exact .inr ⟨l₁, by rw [hconnected, htrading]⟩

theorem start_connected (start : Nat) (s : SessionSettings) (l : Link) :
    (connected start s l).start = start := by
  obtain ⟨fault, -, h⟩ | ⟨_, _, _, _, _, _, -, -, -, ⟨fault, -, h⟩ | ⟨-, deadline', -, h⟩⟩ :=
    connected_cases start s l
  · rw [h]; rfl
  · rw [h]; rfl
  · rw [h]

theorem start_course (start : Nat) (s : SessionSettings) (peer : Peer) :
    (course start s peer).start = start := by
  obtain ⟨fault, -, h⟩ | ⟨deadline, -, ⟨time, failure, -, h⟩ | ⟨time, text, -, h⟩ |
    ⟨l, -, h⟩⟩ := course_cases start s peer
  · rw [h]; rfl
  · rw [h]; rfl
  · rw [h]; rfl
  · rw [h, start_connected]

theorem trader_of_connected {l : Link} {o : Outcome} (ho : (connected start s l).result = .ok o) :
    o.trader = s.trader := by
  obtain ⟨fault, -, h⟩ | ⟨_, _, _, _, _, _, -, -, -, ⟨fault, -, h⟩ | ⟨-, deadline', -, h⟩⟩ :=
    connected_cases start s l
  · rw [h] at ho; cases ho
  · rw [h] at ho; cases ho
  · rw [h] at ho; cases ho; rfl

/-- An outcome is that of the session's trader. -/
theorem trader_of_course {o : Outcome} (ho : (course start s peer).result = .ok o) :
    o.trader = s.trader := by
  obtain ⟨fault, -, h⟩ | ⟨deadline, -, ⟨time, failure, -, h⟩ | ⟨time, text, -, h⟩ |
    ⟨l, -, h⟩⟩ := course_cases start s peer
  · rw [h] at ho; cases ho
  · rw [h] at ho
    simp only [unconnected, Outcome.failed] at ho
    split at ho
    · cases ho; rfl
    · cases ho
  · rw [h] at ho; cases ho
  · rw [h] at ho
    exact trader_of_connected ho

end Session

end MarketLoad
