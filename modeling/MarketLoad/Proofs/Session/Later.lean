import MarketLoad.Proofs.Clock
import MarketLoad.Proofs.Session.Serving
import MarketLoad.Proofs.Venue.Later
import MarketLoad.Session.Course

/-!
# Sessions at a later time

A session that takes its slot later does the same things as much later, until an instant that it
computes lies past the end of the clock, which breaks its worker (`Session.course_later`). Each
step of a session is followed from a link to the moved link, and the clock's end is the only place
where the two part.
-/

namespace MarketLoad

open Venue

variable {t : Nat}

/-! ### Registration -/

namespace Registration

theorem await_later (deadline : Nat) (received : Bytes) (l : Link) :
    await (deadline + t) received (l.later t) =
      Prod.map id (·.later t) (await deadline received l) := by
  induction received, l using await.induct deadline with
  | case1 received l l' h => rw [await, await, Link.read_later, h]; rfl
  | case2 received l l' h => rw [await, await, Link.read_later, h]; rfl
  | case3 received l reason l' h => rw [await, await, Link.read_later, h]; rfl
  | case4 received l first rest l' h _ hack =>
    have hlater := Link.read_later_of_eq (t := t) h
    rw [await_of_data h, await_of_data hlater, if_pos hack, if_pos hack]
    rfl
  | case5 received l first rest l' h _ hack hstop =>
    have hlater := Link.read_later_of_eq (t := t) h
    rw [await_of_data h, await_of_data hlater, if_neg hack, if_neg hack, if_pos hstop, if_pos hstop]
    rfl
  | case6 received l first rest l' h _ hack hstop ih =>
    have hlater := Link.read_later_of_eq (t := t) h
    rw [await_of_data h, await_of_data hlater, if_neg hack, if_neg hack, if_neg hstop, if_neg hstop]
    exact ih

theorem perform_later (trader : Trader) (deadline : Nat) (l : Link) :
    perform trader (deadline + t) (l.later t) =
      Prod.map id (·.later t) (perform trader deadline l) := by
  rw [perform, perform, Link.write_later]
  match Link.write deadline l (Command.register trader).bytes with
  | (.done, l') => exact await_later ..
  | (.failed reason, l') => rfl
  | (.timedOut, l') => rfl

end Registration

/-! ### Trading -/

/-- The same cycle, later. -/
def Cycle.later (t : Nat) (c : Cycle) : Cycle :=
  { c with start := c.start + t, finish := c.finish + t }

/-- The same tally of later cycles. -/
def Tally.later (t : Nat) (y : Tally) : Tally := { y with cycles := y.cycles.map (·.later t) }

theorem Tally.count_later (y : Tally) (c : Cycle) :
    (y.later t).count (c.later t) = (y.count c).map (·.later t) := by
  have hsent : (c.later t).sent = c.sent := rfl
  have htrip : (c.later t).roundTrip = c.roundTrip := rfl
  rw [Tally.count, Tally.count, hsent, htrip]
  cases c.sent with
  | false =>
    simp only [Bool.false_eq_true, if_false]
    change (addCounters y.skipped 1 >>= _) = _
    cases addCounters y.skipped 1 <;> rfl
  | true =>
    simp only [if_true]
    change (addCounters y.sent 1 >>= _) = _
    cases addCounters y.sent 1 with
    | error fault => rfl
    | ok sent =>
      cases c.roundTrip with
      | none => rfl
      | some time =>
        simp only [Tally.later]
        cases y.latency.record (.ofMillis time) <;> rfl

namespace Trading

variable {s : SessionSettings}

theorem awaitReply_later (timeouts : Timeouts) (start : Nat) (l : Link) :
    awaitReply timeouts (start + t) (l.later t) =
        Prod.map id (·.later t) (awaitReply timeouts start l) ∨
      (awaitReply timeouts (start + t) (l.later t)).1.fault = some .clockOverflow := by
  unfold awaitReply
  obtain ⟨deadline, hd, hd'⟩ | hd' := Clock.deadline_later t l.now timeouts.drain
  · refine .inl ?_
    rw [show Clock.deadline (l.later t).now timeouts.drain = _ from hd', hd]
    dsimp only
    rw [Link.read_later]
    match l.read deadline with
    | (.data first rest, l') =>
      have hspan : (l'.later t).now - (start + t) = l'.now - start := Nat.add_sub_add_right ..
      simp only [Prod.map_apply, id_eq, hspan]
    | (.ended, l') | (.failed reason, l') | (.timedOut, l') => rfl
  · rw [show Clock.deadline (l.later t).now timeouts.drain = _ from hd']
    exact .inr rfl

theorem sendOrder_later (timeouts : Timeouts) (command : Command) (l : Link) :
    sendOrder timeouts command (l.later t) =
        Prod.map id (·.later t) (sendOrder timeouts command l) ∨
      (sendOrder timeouts command (l.later t)).1.fault = some .clockOverflow := by
  unfold sendOrder
  obtain ⟨deadline, hd, hd'⟩ | hd' := Clock.deadline_later t l.now timeouts.send
  · rw [show Clock.deadline (l.later t).now timeouts.send = _ from hd', hd]
    dsimp only
    rw [Link.write_later]
    match Link.write deadline l command.bytes with
    | (.done, l') => exact awaitReply_later timeouts l.now l'
    | (.failed reason, l') | (.timedOut, l') => exact .inl rfl
  · rw [show Clock.deadline (l.later t).now timeouts.send = _ from hd']
    exact .inr rfl

theorem cycle_later (slot : Nat) (flow : OrderFlow) (l : Link) :
    cycle s slot flow (l.later t) =
        Prod.map (·.later t) (Prod.map id (·.later t)) (cycle s slot flow l) ∨
      (cycle s slot flow (l.later t)).1.fault = some .clockOverflow := by
  unfold cycle
  match flow.next with
  | .error fault => exact .inl rfl
  | .ok (none, flow) => exact .inl rfl
  | .ok (some order, flow) =>
    obtain h | h := sendOrder_later (t := t) s.timeouts (.order s.trader order) l
    · refine .inl ?_
      dsimp only
      rw [h]
      rfl
    · exact .inr h

theorem serve_later (opened slot : Nat) (flow : OrderFlow) (tally : Tally) (l : Link) :
    serve s (opened + t) slot flow (tally.later t) (l.later t) =
        Prod.map id (Prod.map (·.later t) (·.later t)) (serve s opened slot flow tally l) ∨
      (serve s (opened + t) slot flow (tally.later t) (l.later t)).1 = .broken .clockOverflow := by
  have hwait : (l.later t).expire (opened + t + roundUp slot Nanos.perMilli) =
      (l.expire (opened + roundUp slot Nanos.perMilli)).later t := by
    rw [Nat.add_right_comm, Link.expire_later]
  unfold serve
  rw [hwait]
  generalize l.expire (opened + roundUp slot Nanos.perMilli) = l
  have hage : age (opened + t) (l.later t).now = age opened l.now :=
    congrArg Clock.nanos (Nat.add_sub_add_right ..)
  dsimp only
  rw [hage]
  by_cases hlate : s.duration.nanos < slot ∨ s.duration.nanos < age opened l.now
  · rw [if_pos hlate, if_pos hlate]; exact .inl rfl
  rw [if_neg hlate, if_neg hlate]
  obtain h | h := cycle_later (t := t) (s := s) slot flow l
  · rw [h]
    match cycle s slot flow l with
    | (c, flow, l) =>
      have hlog : (tally.later t).log (c.later t) = (tally.log c).later t := rfl
      have hfault : (c.later t).fault = c.fault := rfl
      dsimp only [Prod.map_apply, id_eq]
      rw [hlog, hfault]
      match c.fault with
      | some fault => exact .inl rfl
      | none =>
        rw [Tally.count_later]
        match (tally.log c).count c with
        | .error fault => exact .inl rfl
        | .ok tally =>
          dsimp only [Except.map]
          by_cases hreach : Clock.reaches (Clock.nanos (opened + t) + slot) s.interval = true
          · have hreach' : Clock.reaches (Clock.nanos opened + slot) s.interval = true :=
              Clock.reaches_of_le
                (Nat.add_le_add_right (Clock.nanos_le_nanos_add opened t) slot) hreach
            simp only [hreach, hreach', Bool.not_true, Bool.false_eq_true, if_false]
            split <;> exact .inl rfl
          · rw [Bool.not_eq_true] at hreach
            simp only [hreach, Bool.not_false, if_true]
            exact .inr trivial
  · match hc : cycle s slot flow (l.later t), h with
    | (c, flow, l'), h =>
      dsimp only at h ⊢
      rw [h]
      exact .inr rfl

theorem serveFrom_later (opened slot : Nat) (flow : OrderFlow) (tally : Tally) (l : Link) :
    serveFrom s (opened + t) slot flow (tally.later t) (l.later t) =
        Prod.map id (Prod.map (·.later t) (·.later t)) (serveFrom s opened slot flow tally l) ∨
      (serveFrom s (opened + t) slot flow (tally.later t) (l.later t)).1 =
        some .clockOverflow := by
  induction slot, flow, tally, l using serveFrom.induct s opened with
  | case1 slot flow tally l fault tally' l' h =>
    obtain h' | h' := serve_later (t := t) (s := s) opened slot flow tally l
    · rw [h] at h'
      rw [serveFrom_of_broken h, serveFrom_of_broken h']
      exact .inl rfl
    · exact .inr (fst_serveFrom_of_broken h')
  | case2 slot flow tally l tally' l' h =>
    obtain h' | h' := serve_later (t := t) (s := s) opened slot flow tally l
    · rw [h] at h'
      rw [serveFrom_of_last h, serveFrom_of_last h']
      exact .inl rfl
    · exact .inr (fst_serveFrom_of_broken h')
  | case3 slot flow tally l time flow' tally' l' h hnext ih =>
    obtain h' | h' := serve_later (t := t) (s := s) opened slot flow tally l
    · rw [h] at h'
      rw [serveFrom_of_more h hnext, serveFrom_of_more h' hnext]
      exact ih
    · exact .inr (fst_serveFrom_of_broken h')
  | case4 slot flow tally l time flow' tally' l' h hnext =>
    obtain h' | h' := serve_later (t := t) (s := s) opened slot flow tally l
    · rw [h] at h'
      rw [serveFrom_of_only h hnext, serveFrom_of_only h' hnext]
      exact .inl rfl
    · exact .inr (fst_serveFrom_of_broken h')

/-- Trading at a later time goes the same way, as much later, or meets the end of the clock. -/
theorem perform_later (l : Link) :
    perform s (l.later t) = Prod.map id (Prod.map (·.later t) (·.later t)) (perform s l) ∨
      (perform s (l.later t)).1 = some .clockOverflow := by
  unfold perform
  by_cases hreach : Clock.reaches (Clock.nanos (l.later t).now) s.duration = true
  · have hreach' : Clock.reaches (Clock.nanos l.now) s.duration = true :=
      Clock.reaches_of_le (Clock.nanos_le_nanos_add l.now t) hreach
    rw [if_pos hreach, if_pos hreach']
    exact serveFrom_later l.now 0 s.flow .empty l
  · rw [if_neg hreach]
    exact .inr rfl

end Trading

/-! ### The course of a session -/

def Course.later (t : Nat) (c : Course) : Course :=
  { c with
    start := c.start + t
    finish := c.finish + t
    connection := c.connection.map (·.later t)
    cycles := c.cycles.map (·.later t) }

namespace Session

variable {s : SessionSettings}

theorem connected_later (start : Nat) (l : Link) :
    connected (start + t) s (l.later t) = (connected start s l).later t ∨
      (connected (start + t) s (l.later t)).result = .error .clockOverflow := by
  unfold connected
  obtain ⟨deadline, hd, hd'⟩ | hd' := Clock.deadline_later t l.now s.timeouts.registerAck
  · rw [show Clock.deadline (l.later t).now s.timeouts.registerAck = _ from hd', hd]
    dsimp only
    rw [Registration.perform_later]
    match Registration.perform s.trader deadline l with
    | (registration, l) =>
      dsimp only [Prod.map_apply, id_eq]
      obtain h | h := Trading.perform_later (t := t) (s := s) l
      · rw [h]
        match Trading.perform s l with
        | (some fault, tally, l) =>
          refine .inl ?_
          simp only [broken, Course.later, Prod.map_apply, id_eq, Tally.later, List.map_reverse]
          rfl
        | (none, tally, l) =>
          have hcycles : (tally.later t).cycles.reverse = tally.cycles.reverse.map (·.later t) :=
            List.map_reverse.symm
          simp only [Prod.map_apply, id_eq, hcycles]
          obtain ⟨deadline, hd, hd'⟩ | hd' := Clock.deadline_later t l.now s.timeouts.send
          · rw [show Clock.deadline (l.later t).now s.timeouts.send = _ from hd', hd]
            refine .inl ?_
            have hspan : ((l.farewell deadline).later t).now - (start + t) =
                (l.farewell deadline).now - start := Nat.add_sub_add_right ..
            dsimp only
            rw [Link.farewell_later, hspan]
            rfl
          · rw [show Clock.deadline (l.later t).now s.timeouts.send = _ from hd']
            exact .inr rfl
      · rcases hp : Trading.perform s (l.later t) with ⟨fault, tally, l'⟩
        rw [hp] at h
        subst h
        exact .inr rfl
  · rw [show Clock.deadline (l.later t).now s.timeouts.registerAck = _ from hd']
    exact .inr rfl

/-- A session that takes its slot later does the same as much later, or meets the end of the
clock. -/
theorem course_later (start : Nat) (peer : Peer) :
    course (start + t) s peer = (course start s peer).later t ∨
      (course (start + t) s peer).result = .error .clockOverflow := by
  unfold course
  obtain ⟨deadline, hd, hd'⟩ | hd' := Clock.deadline_later t start s.timeouts.connect
  · rw [hd, hd']
    dsimp only
    rw [connect_later]
    match connect s.endpoint.text peer start deadline with
    | .connected l => exact connected_later start l
    | .failed time failure =>
      refine .inl ?_
      have hspan : time + t - (start + t) = time - start := Nat.add_sub_add_right ..
      simp only [unconnected, hspan]
      rfl
    | .crashed time text => exact .inl rfl
  · rw [hd']
    exact .inr rfl

end Session

end MarketLoad
