import MarketLoad.Proofs.Clock
import MarketLoad.Proofs.Session.Course
import MarketLoad.Proofs.Session.Serving
import MarketLoad.Proofs.Venue.Time

/-!
# Sessions at the end of the clock

A worker breaks at the end of the clock only when it is near: the time at which it breaks lies no
further from the end than the spans of its session reach (`Session.horizon_le_of_clockOverflow`).
No other computation of a session ends with this fault (`Timeless`).
-/

namespace MarketLoad

open Venue

/-- A computation that never ends with the fault of the clock's end. -/
def Timeless {α : Type} (x : Except Fault α) : Prop := x ≠ .error .clockOverflow

namespace Timeless

theorem ok {α : Type} (a : α) : Timeless (.ok a) := nofun

theorem error {α : Type} {fault : Fault} (h : fault ≠ .clockOverflow) :
    Timeless (.error fault : Except Fault α) := fun he => h (Except.error.inj he)

theorem bind {α β : Type} {x : Except Fault α} {f : α → Except Fault β} (hx : Timeless x)
    (hf : ∀ a, Timeless (f a)) : Timeless (x >>= f) := by
  cases x with
  | error fault => exact error fun he => hx (congrArg _ he)
  | ok a => exact hf a

theorem addCounters (a b : UInt64) : Timeless (addCounters a b) := by
  unfold MarketLoad.addCounters
  split
  · exact ok _
  · exact error nofun

theorem recordIn (micros : Nat) (buckets : List Bucket) :
    Timeless (Histogram.recordIn micros buckets) := by
  induction buckets with
  | nil => exact ok _
  | cons b bs ih =>
    unfold Histogram.recordIn
    split
    · exact bind (bind (addCounters _ _) fun _ => ok _) fun _ => ok _
    · exact bind ih fun _ => ok _

theorem count (tally : Tally) (c : Cycle) : Timeless (tally.count c) := by
  unfold Tally.count
  split
  · refine bind (addCounters _ _) fun _ => ?_
    split
    · exact bind (ok _) fun _ => ok _
    · exact bind (bind (recordIn _ _) fun _ => ok _) fun _ => ok _
  · exact bind (addCounters _ _) fun _ => ok _

theorem spread (shape : FlowShape) : Timeless shape.spread := by
  unfold FlowShape.spread
  split
  · exact error nofun
  · exact ok _

theorem jitterFactor (bps : Int64) : Timeless (Price.jitterFactor bps) := by
  unfold Price.jitterFactor
  dsimp only
  split
  · split
    · exact ok _
    · exact error nofun
  · exact error nofun

theorem jittered (p : Price) (bps : Int64) : Timeless (p.jittered bps) := by
  refine bind (jitterFactor bps) fun factor => ?_
  split
  · exact ok _
  · exact error nofun

theorem next (flow : OrderFlow) : Timeless flow.next := by
  unfold OrderFlow.next
  split
  · exact ok _
  dsimp only
  split
  · exact ok _
  · exact bind (spread _) fun _ => bind (jittered _ _) fun _ => ok _

theorem failed (trader : Trader) (elapsed : Span) (failure : SessionFailure) :
    Timeless (Outcome.failed trader elapsed failure) := by
  unfold Outcome.failed
  split
  · exact ok _
  · exact error nofun

end Timeless

/-- The spans that a session adds to readings of the clock, in nanoseconds. -/
def SessionSettings.reach (s : SessionSettings) : Nat :=
  s.timeouts.connect.nanos + s.timeouts.registerAck.nanos + s.timeouts.send.nanos +
    s.timeouts.drain.nanos + s.duration.nanos + s.interval.nanos

namespace Trading

variable {s : SessionSettings} {timeouts : Timeouts} {fault : Fault} {l : Link}

theorem awaitReply_end (timeouts : Timeouts) (start : Nat) (l : Link) :
    l.now ≤ (awaitReply timeouts start l).2.now ∧
      ((awaitReply timeouts start l).1.fault ≠ none →
        Clock.horizon ≤ Clock.nanos (awaitReply timeouts start l).2.now + timeouts.drain.nanos) := by
  unfold awaitReply
  cases hd : Clock.deadline l.now timeouts.drain with
  | error fault => exact ⟨Nat.le_refl _, fun _ => Clock.horizon_le_of_deadline hd⟩
  | ok deadline =>
    have hle := l.now_le_read deadline
    dsimp only
    match hr : l.read deadline with
    | (.data first rest, l') | (.ended, l') | (.failed reason, l') | (.timedOut, l') =>
      rw [hr] at hle
      exact ⟨hle, fun hfault => absurd rfl hfault⟩

theorem sendOrder_end (timeouts : Timeouts) (command : Command) (l : Link) :
    l.now ≤ (sendOrder timeouts command l).2.now ∧
      ((sendOrder timeouts command l).1.fault ≠ none →
        Clock.horizon ≤ Clock.nanos (sendOrder timeouts command l).2.now +
          (timeouts.send.nanos + timeouts.drain.nanos)) := by
  unfold sendOrder
  cases hd : Clock.deadline l.now timeouts.send with
  | error fault =>
    have hend := Clock.horizon_le_of_deadline hd
    exact ⟨Nat.le_refl _, fun _ => by dsimp only; omega⟩
  | ok deadline =>
    have hle := l.now_le_write deadline command.bytes
    dsimp only
    match hw : l.write deadline command.bytes with
    | (.done, l') =>
      rw [hw] at hle
      obtain ⟨hle', hend⟩ := awaitReply_end timeouts l.now l'
      exact ⟨Nat.le_trans hle hle', fun hfault => by have := hend hfault; dsimp only; omega⟩
    | (.failed reason, l') | (.timedOut, l') =>
      rw [hw] at hle
      exact ⟨hle, fun hfault => absurd rfl hfault⟩

theorem cycle_end (slot : Nat) (flow : OrderFlow) (l : Link) :
    l.now ≤ (cycle s slot flow l).2.2.now ∧
      ((cycle s slot flow l).1.fault = some .clockOverflow →
        Clock.horizon ≤ Clock.nanos (cycle s slot flow l).2.2.now + s.reach) := by
  unfold cycle
  match hnext : flow.next with
  | .error fault =>
    exact ⟨Nat.le_refl _, fun h => absurd (hnext.trans (congrArg _ (Option.some.inj h)))
      (Timeless.next flow)⟩
  | .ok (none, flow) => exact ⟨Nat.le_refl _, nofun⟩
  | .ok (some order, flow) =>
    obtain ⟨hle, hend⟩ := sendOrder_end s.timeouts (.order s.trader order) l
    refine ⟨hle, fun h => ?_⟩
    have hnone : (sendOrder s.timeouts (.order s.trader order) l).1.fault ≠ none := fun hn => by
      have hsome : (sendOrder s.timeouts (.order s.trader order) l).1.fault =
        some .clockOverflow := h
      rw [hn] at hsome
      cases hsome
    have := hend hnone
    simp only [SessionSettings.reach]
    omega

theorem serve_end {opened : Nat} (slot : Nat) (flow : OrderFlow) (tally : Tally)
    (hopened : opened ≤ l.now) :
    opened ≤ (serve s opened slot flow tally l).2.2.now ∧
      ((serve s opened slot flow tally l).1 = .broken .clockOverflow →
        Clock.horizon ≤ Clock.nanos (serve s opened slot flow tally l).2.2.now + s.reach) := by
  unfold serve
  have hwait : opened ≤ (l.expire (opened + roundUp slot Nanos.perMilli)).now :=
    Nat.le_trans hopened (l.now_le_expire _)
  generalize l.expire (opened + roundUp slot Nanos.perMilli) = l at hwait
  dsimp only
  by_cases hlate : s.duration.nanos < slot ∨ s.duration.nanos < age opened l.now
  · rw [if_pos hlate]
    exact ⟨hwait, nofun⟩
  rw [if_neg hlate]
  obtain ⟨hcycle, hend⟩ := cycle_end (s := s) slot flow l
  match hc : cycle s slot flow l with
  | (c, flow', l') =>
    rw [hc] at hcycle hend
    have hle : opened ≤ l'.now := Nat.le_trans hwait hcycle
    dsimp only
    match hfault : c.fault with
    | some fault =>
      refine ⟨hle, fun h => hend ?_⟩
      exact hfault.trans (congrArg _ (Served.broken.inj h))
    | none =>
      match hcount : (tally.log c).count c with
      | .error fault =>
        refine ⟨hle, fun h => absurd ?_ (Timeless.count (tally.log c) c)⟩
        exact hcount.trans (congrArg _ (Served.broken.inj h))
      | .ok tally' =>
        dsimp only
        by_cases hreach : Clock.reaches (Clock.nanos opened + slot) s.interval = true
        · simp only [hreach, Bool.not_true, Bool.false_eq_true, if_false]
          split
          · exact ⟨hle, nofun⟩
          · exact ⟨hle, nofun⟩
        · rw [Bool.not_eq_true] at hreach
          simp only [hreach, Bool.not_false, if_true]
          refine ⟨hle, fun _ => ?_⟩
          have hnanos : Clock.nanos opened ≤ Clock.nanos l'.now := Nat.mul_le_mul_left _ hle
          have hover := of_decide_eq_false hreach
          simp only [SessionSettings.reach]
          omega

theorem serveFrom_end {opened : Nat} (slot : Nat) (flow : OrderFlow) (tally : Tally)
    (hopened : opened ≤ l.now) :
    opened ≤ (serveFrom s opened slot flow tally l).2.2.now ∧
      ((serveFrom s opened slot flow tally l).1 = some .clockOverflow →
        Clock.horizon ≤ Clock.nanos (serveFrom s opened slot flow tally l).2.2.now + s.reach) := by
  induction slot, flow, tally, l using serveFrom.induct s opened with
  | case1 slot flow tally l fault tally' l' h =>
    obtain ⟨hle, hend⟩ := serve_end (s := s) slot flow tally hopened
    rw [h] at hle hend
    rw [serveFrom_of_broken h]
    exact ⟨hle, fun hfault => hend (congrArg Served.broken (Option.some.inj hfault))⟩
  | case2 slot flow tally l tally' l' h =>
    obtain ⟨hle, -⟩ := serve_end (s := s) slot flow tally hopened
    rw [h] at hle
    rw [serveFrom_of_last h]
    refine ⟨hle, fun hnone => ?_⟩
    cases hnone
  | case3 slot flow tally l time flow' tally' l' h hnext ih =>
    obtain ⟨hle, -⟩ := serve_end (s := s) slot flow tally hopened
    rw [h] at hle
    rw [serveFrom_of_more h hnext]
    exact ih hle
  | case4 slot flow tally l time flow' tally' l' h hnext =>
    obtain ⟨hle, -⟩ := serve_end (s := s) slot flow tally hopened
    rw [h] at hle
    rw [serveFrom_of_only h hnext]
    refine ⟨hle, fun hnone => ?_⟩
    cases hnone

theorem perform_end (s : SessionSettings) (l : Link) :
    (perform s l).1 = some .clockOverflow →
      Clock.horizon ≤ Clock.nanos (perform s l).2.2.now + s.reach := by
  unfold perform
  by_cases hreach : Clock.reaches (Clock.nanos l.now) s.duration = true
  · rw [if_pos hreach]
    exact (serveFrom_end 0 s.flow .empty (Nat.le_refl _)).2
  · rw [if_neg hreach]
    intro _
    have hover := of_decide_eq_false (Bool.not_eq_true _ ▸ hreach)
    simp only [SessionSettings.reach]
    omega

end Trading

namespace Session

theorem connected_end {start : Nat} {s : SessionSettings} {l : Link}
    (h : (connected start s l).result = .error .clockOverflow) :
    Clock.horizon ≤ Clock.nanos (connected start s l).finish + s.reach := by
  obtain ⟨fault, hack, hbroken⟩ | ⟨_, _, l₁, broke, tally, l₂, -, -, htrading,
    ⟨fault, hfault, hbroken⟩ | ⟨-, _, -, hcourse⟩⟩ := connected_cases start s l
  · rw [hbroken]
    have hend := Clock.horizon_le_of_deadline hack
    simp only [broken, SessionSettings.reach]
    omega
  · rw [hbroken] at h ⊢
    obtain rfl | ⟨-, hsend⟩ := hfault
    · have hperform := Trading.perform_end s l₁
      rw [htrading] at hperform
      exact hperform (congrArg _ (Except.error.inj h))
    · have hend := Clock.horizon_le_of_deadline hsend
      simp only [broken, SessionSettings.reach]
      omega
  · rw [hcourse] at h
    cases h

/-- A worker that breaks at the end of the clock has come near to it. -/
theorem horizon_le_of_clockOverflow {start : Nat} {s : SessionSettings} {peer : Peer}
    (h : (course start s peer).result = .error .clockOverflow) :
    Clock.horizon ≤ Clock.nanos (course start s peer).finish + s.reach := by
  obtain ⟨fault, hconnect, hcourse⟩ | ⟨_, -, ⟨time, failure, -, hcourse⟩ |
    ⟨time, text, -, hcourse⟩ | ⟨l, -, hcourse⟩⟩ := course_cases start s peer
  · rw [hcourse]
    have hend := Clock.horizon_le_of_deadline hconnect
    simp only [broken, SessionSettings.reach]
    omega
  · rw [hcourse] at h
    exact absurd h (Timeless.failed _ _ _)
  · rw [hcourse] at h
    cases h
  · rw [hcourse] at h ⊢
    exact connected_end h

end Session

end MarketLoad
