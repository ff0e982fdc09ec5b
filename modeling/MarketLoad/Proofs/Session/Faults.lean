import MarketLoad.Proofs.Consistency
import MarketLoad.Proofs.OrderFlow

/-!
# What breaks a worker

A worker breaks at the end of the clock, at a draw of its order flow, at a counter that is full or
at its connector, and nowhere else (`Session.Breaks`, `Session.breaks_of_course`). A counter can
only be full if more cycles fit the window than 64 bits count: as long as cycles are counted one by
one (`Tally.Faithful`) and bring at most one round trip each (`Tally.Measured`), no counter shows
more than there are cycles (`Tally.size_le_of_count`).
-/

namespace MarketLoad

open Venue

/-- What can break the worker of a session that ends at a reading, against a peer. -/
inductive Session.Breaks (s : SessionSettings) (peer : Peer) (finish : Nat) : Fault → Prop
  | clock : Clock.horizon ≤ Clock.nanos finish + s.reach → Breaks s peer finish .clockOverflow
  | flow {fault : Fault} (count : Nat) : (s.flow.take count).2 = some fault →
    Breaks s peer finish fault
  | counter : UInt64.size ≤ s.duration.nanos / Clock.pause s.interval + 1 →
    Breaks s peer finish .addOverflow
  | connector {failure : SessionFailure} : peer.reception = .fail failure →
    failure.isFatal = false → Breaks s peer finish (.notFatal failure)
  | crash {text : Option String} : peer.reception = .crash text →
    Breaks s peer finish (.crash text)

/-- A cycle cannot be counted only if there are too many for one counter. -/
theorem Tally.size_le_of_count {y : Tally} {c : Cycle} {fault : Fault} (hfaithful : y.Faithful)
    (hmeasured : y.Measured) (h : (y.log c).count c = .error fault) :
    fault = .addOverflow ∧ UInt64.size ≤ y.cycles.length + 1 := by
  have hcounted := hfaithful.sent_add_skipped
  unfold Measured at hmeasured
  have hfull {shown : Nat} (hshown : fault = .addOverflow ∧ UInt64.size ≤ shown + 1)
      (hle : shown ≤ y.cycles.length) : fault = .addOverflow ∧ UInt64.size ≤ y.cycles.length + 1 :=
    hshown.imp_right fun hsize => Nat.le_trans hsize (Nat.succ_le_succ hle)
  unfold count at h
  split at h
  · obtain h | ⟨sent, -, h⟩ := bind_eq_error.1 h
    · exact hfull (size_le_of_addCounters_one h) (by simp only [log]; omega)
    · split at h
      · cases h
      · obtain h | ⟨latency, -, h⟩ := bind_eq_error.1 h
        · exact hfull (Histogram.size_le_of_record h) (by simp only [log]; omega)
        · cases h
  · obtain h | ⟨skipped, -, h⟩ := bind_eq_error.1 h
    · exact hfull (size_le_of_addCounters_one h) (by simp only [log]; omega)
    · cases h

namespace Trading

variable {s : SessionSettings} {opened slot : Nat} {flow flow' : OrderFlow} {tally tally' : Tally}
  {l l' : Link} {fault : Fault} {c : Cycle} {cycles : List Cycle}

/-! ### One cycle -/

theorem fault_of_awaitReply {timeouts : Timeouts} {start : Nat}
    (h : (awaitReply timeouts start l).1.fault = some fault) : fault = .clockOverflow := by
  unfold awaitReply at h
  cases hd : Clock.deadline l.now timeouts.drain with
  | error fault' =>
    rw [hd] at h
    cases h
    exact Clock.fault_of_deadline hd
  | ok deadline =>
    rw [hd] at h
    dsimp only at h
    split at h
    · cases h
    · cases h

theorem fault_of_sendOrder {timeouts : Timeouts} {command : Command}
    (h : (sendOrder timeouts command l).1.fault = some fault) : fault = .clockOverflow := by
  unfold sendOrder at h
  cases hd : Clock.deadline l.now timeouts.send with
  | error fault' =>
    rw [hd] at h
    cases h
    exact Clock.fault_of_deadline hd
  | ok deadline =>
    rw [hd] at h
    dsimp only at h
    split at h
    · exact fault_of_awaitReply h
    · cases h

/-- A cycle breaks at the draw of its order, or later at the end of the clock. -/
theorem next_of_cycle (h : cycle s slot flow l = (c, flow', l')) :
    (∃ fault, flow.next = .error fault ∧ c.fault = some fault ∧ flow' = flow) ∨
      ∃ order, flow.next = .ok (order, flow') ∧
        ∀ fault, c.fault = some fault → fault = .clockOverflow := by
  unfold cycle at h
  match hnext : flow.next with
  | .error fault =>
    rw [hnext] at h
    cases h
    exact .inl ⟨fault, rfl, rfl, rfl⟩
  | .ok (none, flow₁) =>
    rw [hnext] at h
    cases h
    exact .inr ⟨none, rfl, nofun⟩
  | .ok (some order, flow₁) =>
    rw [hnext] at h
    cases h
    exact .inr ⟨some order, rfl, fun _ => fault_of_sendOrder⟩

/-! ### The window -/

/-- A cycle that breaks draws a fault from the flow, or it meets the end of the clock. -/
theorem Makes.fault_cases (h : Makes s flow l cycles l') (hc : c ∈ cycles)
    (hfault : c.fault = some fault) :
    fault = .clockOverflow ∨ ∃ count, (flow.take count).2 = some fault := by
  induction h with
  | none time => cases hc
  | @cycle flow flow' l _ _ time slot first cycles hcycle _ ih =>
    obtain ⟨fault', hnext, hfirst, rfl⟩ | ⟨order, hnext, hclock⟩ := next_of_cycle hcycle
    · obtain rfl | hc := List.mem_cons.1 hc
      · cases hfirst.symm.trans hfault
        exact .inr ⟨1, congrArg Prod.snd (OrderFlow.take_of_error hnext 0)⟩
      · exact ih hc
    · obtain rfl | hc := List.mem_cons.1 hc
      · exact .inl (hclock fault hfault)
      · refine (ih hc).imp_right ?_
        rintro ⟨count, hcount⟩
        exact ⟨count + 1, (congrArg Prod.snd (OrderFlow.take_of_ok hnext count)).trans hcount⟩

/-- A worker breaks in a cycle, at the end of the clock, or because more cycles fit the window than
can be counted. -/
theorem fault_of_serveFrom (hbooks : Ledger.Before s opened slot tally) (hopened : opened ≤ l.now)
    (hfaithful : tally.Faithful) (hmeasured : tally.Measured)
    (honly : Clock.pause s.interval = 0 → tally.cycles = [])
    (h : (serveFrom s opened slot flow tally l).1 = some fault) :
    (∃ c ∈ (serveFrom s opened slot flow tally l).2.1.cycles, c.fault = some fault) ∨
      fault = .clockOverflow ∨
      fault = .addOverflow ∧ UInt64.size ≤ s.duration.nanos / Clock.pause s.interval + 1 := by
  induction slot, flow, tally, l using serveFrom.induct s opened with
  | case1 slot flow tally l fault' tally' l' hs =>
    rw [serveFrom_of_broken hs] at h ⊢
    cases h
    obtain ⟨-, -, -, hlast⟩ | ⟨hwindow, -, c, flow', -, hcycles, ⟨_, hserved, hbroke⟩ |
      ⟨-, hend⟩⟩ := serve_cases hs rfl
    · cases hlast
    · cases hserved
      obtain hcycle | hcount | hclock := hbroke
      · exact .inl ⟨c, hcycles ▸ List.mem_cons_self, hcycle⟩
      · obtain ⟨hfault, hsize⟩ := Tally.size_le_of_count hfaithful hmeasured hcount
        refine .inr (.inr ⟨hfault, Nat.le_trans hsize (Nat.succ_le_succ ?_)⟩)
        -- The cycles so far lie a period apart in the window, or there are none.
        obtain hzero | hpos := Nat.eq_zero_or_pos (Clock.pause s.interval)
        · rw [honly hzero]
          exact Nat.zero_le _
        · exact (Nat.le_div_iff_mul_le hpos).2 (Nat.le_trans hbooks.room hwindow)
      · exact .inr (.inl hclock)
    · obtain hend | hend := hend
      · cases hend
      · cases hend
  | case2 slot flow tally l tally' l' hs =>
    rw [serveFrom_of_last hs] at h
    cases h
  | case3 slot flow tally l time flow' tally' l' hs hmore ih =>
    obtain ⟨-, hnow, hnext⟩ := hbooks.serve hopened hs
    rw [serveFrom_of_more hs hmore] at h ⊢
    have hunbroken : ∀ fault, Served.more time flow' ≠ .broken fault := by
      intro fault hbroken
      cases hbroken
    refine ih (hnext time flow' rfl hmore.1) hnow ?_ ?_ (fun hzero => absurd hmore.1 (by omega)) h
    · exact serve_keeps (fun _ _ _ hy _ => hy.count) hs hunbroken hfaithful
    · exact serve_keeps (fun _ _ _ hy _ => hy.count) hs hunbroken hmeasured
  | case4 slot flow tally l time flow' tally' l' hs hmore =>
    rw [serveFrom_of_only hs hmore] at h
    cases h

theorem fault_of_perform_eq_some (h : (perform s l).1 = some fault) :
    (∃ count, (s.flow.take count).2 = some fault) ∨ fault = .clockOverflow ∨
      fault = .addOverflow ∧ UInt64.size ≤ s.duration.nanos / Clock.pause s.interval + 1 := by
  by_cases hreach : Clock.reaches (Clock.nanos l.now) s.duration = true
  · have hmakes := makes_perform s l
    rw [perform_of_reaches hreach] at h hmakes
    obtain ⟨c, hc, hfault⟩ | hrest := fault_of_serveFrom (Ledger.Before.start s l.now)
      (Nat.le_refl _) .empty .empty (fun _ => rfl) h
    · obtain hclock | hflow := hmakes.fault_cases (List.mem_reverse.2 hc) hfault
      · exact .inr (.inl hclock)
      · exact .inl hflow
    · exact .inr hrest
  · rw [perform, if_neg hreach] at h
    cases h
    exact .inr (.inl rfl)

end Trading

/-! ### The session -/

namespace Session

variable {start : Nat} {s : SessionSettings} {peer : Peer} {fault : Fault}

theorem fault_of_connected {l : Link} (h : (connected start s l).result = .error fault) :
    (∃ count, (s.flow.take count).2 = some fault) ∨ fault = .clockOverflow ∨
      fault = .addOverflow ∧ UInt64.size ≤ s.duration.nanos / Clock.pause s.interval + 1 := by
  obtain ⟨fault', hack, hcourse⟩ | ⟨_, _, l₁, broke, tally, l₂, -, -, htrading,
    ⟨fault', hbroke, hcourse⟩ | ⟨-, _, -, hcourse⟩⟩ := connected_cases start s l
  · rw [hcourse] at h
    cases h
    exact .inr (.inl (Clock.fault_of_deadline hack))
  · rw [hcourse] at h
    cases h
    obtain rfl | ⟨-, hsend⟩ := hbroke
    · exact Trading.fault_of_perform_eq_some (congrArg Prod.fst htrading)
    · exact .inr (.inl (Clock.fault_of_deadline hsend))
  · rw [hcourse] at h
    cases h

theorem reception_of_connect {endpoint : String} {deadline : Nat} :
    (∀ time text, connect endpoint peer start deadline = .crashed time text →
      peer.reception = .crash text) ∧
    ∀ time failure, connect endpoint peer start deadline = .failed time failure →
      (∃ reason, failure = .connect endpoint reason) ∨ peer.reception = .fail failure := by
  unfold connect
  cases peer.delay with
  | none => exact ⟨nofun, fun _ _ h => .inl (by cases h; exact ⟨_, rfl⟩)⟩
  | some delay =>
    dsimp only
    split
    · exact ⟨nofun, fun _ _ h => .inl (by cases h; exact ⟨_, rfl⟩)⟩
    · cases peer.reception with
      | accept => exact ⟨nofun, nofun⟩
      | refuse reason => exact ⟨nofun, fun _ _ h => .inl (by cases h; exact ⟨_, rfl⟩)⟩
      | fail failure => exact ⟨nofun, fun _ _ h => .inr (by cases h; rfl)⟩
      | crash text => exact ⟨fun _ _ h => by cases h; rfl, nofun⟩

/-- Nothing else breaks a worker. -/
theorem breaks_of_course (h : (course start s peer).result = .error fault) :
    Breaks s peer (course start s peer).finish fault := by
  by_cases hclock : fault = .clockOverflow
  · subst hclock
    exact .clock (horizon_le_of_clockOverflow h)
  · obtain ⟨fault', hconnect, hcourse⟩ | ⟨deadline, -, ⟨time, failure, hconnect, hcourse⟩ |
      ⟨time, text, hconnect, hcourse⟩ | ⟨l, -, hcourse⟩⟩ := course_cases start s peer
    · rw [hcourse] at h
      cases h
      exact absurd (Clock.fault_of_deadline hconnect) hclock
    · rw [hcourse] at h
      simp only [unconnected, Outcome.failed] at h
      split at h
      · cases h
      · rename_i hfatal
        cases h
        rw [Bool.not_eq_true] at hfatal
        obtain ⟨reason, rfl⟩ | hreception := reception_of_connect.2 time failure hconnect
        · cases hfatal
        · exact .connector hreception hfatal
    · rw [hcourse] at h
      cases h
      exact .crash (reception_of_connect.1 time text hconnect)
    · rw [hcourse] at h
      obtain ⟨count, hflow⟩ | hover | ⟨rfl, hsize⟩ := fault_of_connected h
      · exact .flow count hflow
      · exact absurd hover hclock
      · exact .counter hsize

/-- A worker that does not break reports a worker's failure only if its connector says so. -/
theorem reception_of_worker {o : Outcome} {reason : String}
    (h : (course start s peer).result = .ok o) (hfailure : o.failure = some (.worker reason)) :
    peer.reception = .fail (.worker reason) := by
  cases hsuccess : o.success with
  | true =>
    obtain ⟨cause, hcause⟩ := ((consistent_course h).traded hsuccess).2.2 _ hfailure
    cases hcause
  | false =>
    obtain ⟨fault, -, hcourse⟩ | ⟨deadline, -, ⟨time, failure, hconnect, hcourse⟩ |
      ⟨time, text, -, hcourse⟩ | ⟨l, -, hcourse⟩⟩ := course_cases start s peer
    · rw [hcourse] at h
      cases h
    · rw [hcourse] at h
      simp only [unconnected, Outcome.failed] at h
      split at h
      · cases h
        cases hfailure
        obtain ⟨_, hfailure⟩ | hreception := reception_of_connect.2 time _ hconnect
        · cases hfailure
        · exact hreception
      · cases h
    · rw [hcourse] at h
      cases h
    · rw [hcourse] at h
      obtain ⟨_, _, _, _, _, _, -, -, -, rfl, -⟩ := connected_of_ok h
      cases hsuccess

end Session

end MarketLoad
