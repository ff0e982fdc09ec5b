import MarketLoad.Proofs.Clock
import MarketLoad.Proofs.Command
import MarketLoad.Proofs.OrderFlow
import MarketLoad.Proofs.Session.Serving
import MarketLoad.Proofs.Venue.Writing

/-!
# Servers that refuse every order

An order that a server refuses at once takes no time and breaks no worker
(`Trading.cycle_of_refused`). Where the ticker keeps the interval, all slots that are left of a window
are then skipped, each in its time (`Trading.serveFrom_of_refused`); and where only the order of the
first slot is taken, so are the others of the window (`Trading.perform_of_refused`).
-/

namespace MarketLoad

open Venue

namespace Venue

variable {c : Connection} {l : Link} {deadline time opens : Nat} {bytes : Bytes} {reason : String}

/-- From a time on every write fails at once. -/
def Connection.RefusesFrom (c : Connection) (time : Nat) : Prop :=
  ∀ now ≥ time, ∃ reason, c.readiness now = .failing reason

theorem Connection.refusesFrom_of_window (h : c.peer.windows = [⟨opens, none, .error reason⟩]) :
    c.RefusesFrom (c.opened + opens) := by
  intro now hnow
  have hopen : opens ≤ now - c.opened := by omega
  unfold readiness
  split
  · exact ⟨_, rfl⟩
  · simp only [h, List.find?_cons, WriteWindow.contains, hopen, decide_true, Bool.and_self]
    exact ⟨reason, rfl⟩

theorem Connection.RefusesFrom.mono {time' : Nat} (h : c.RefusesFrom time) (hle : time ≤ time') :
    c.RefusesFrom time' := fun now hnow => h now (Nat.le_trans hle hnow)

theorem Link.write_of_failing (hne : bytes ≠ [])
    (h : l.connection.readiness l.now = .failing reason) :
    l.write deadline bytes = (.failed reason, l) := by
  have hlooked : l.untilWritable deadline = (.failed reason, l) := by rw [untilWritable, h]
  exact write_of_not_ready hne nofun hlooked

end Venue

/-- A cycle whose order was not sent is counted as skipped, as long as there is room for it. -/
theorem Tally.count_of_not_sent {y : Tally} {c : Cycle} (hc : c.sent = false)
    (hroom : y.skipped.toNat + 1 < UInt64.size) :
    ∃ skipped, y.count c = .ok { y with skipped } ∧ skipped.toNat = y.skipped.toNat + 1 := by
  have hadd : addCounters y.skipped 1 = .ok (y.skipped + 1) := if_pos hroom
  refine ⟨_, ?_, toNat_of_addCounters hadd⟩
  rw [count, hc, if_neg Bool.false_ne_true, hadd]
  rfl

namespace Trading

variable {s : SessionSettings} {flow flow' : OrderFlow} {order : Option Order} {tally : Tally}
  {l l' : Link} {slot opened m n step : Nat} {reason : String}

/-- A cycle whose order is refused, or that has none to send, is over at once. -/
theorem cycle_of_refused (slot : Nat) (hnext : flow.next = .ok (order, flow'))
    (hrefused : l.connection.readiness l.now = .failing reason)
    (hsend : Clock.reaches (Clock.nanos l.now) s.timeouts.send = true) :
    ∃ c, cycle s slot flow l = (c, flow', l) ∧ c.fault = none ∧ c.sent = false := by
  unfold cycle
  rw [hnext]
  cases order with
  | none => exact ⟨_, rfl, rfl, rfl⟩
  | some order =>
    have hdeadline : Clock.deadline l.now s.timeouts.send =
        .ok (l.now + s.timeouts.send.millisUp) := if_pos hsend
    have hsending : sendOrder s.timeouts (.order s.trader order) l = (⟨false, none, none⟩, l) := by
      rw [sendOrder, hdeadline]
      dsimp only
      rw [Link.write_of_failing (Command.bytes_ne_nil _) hrefused]
    dsimp only
    rw [hsending]
    exact ⟨_, rfl, rfl, rfl⟩

theorem flow_cycle (slot : Nat) (l : Link) (hnext : flow.next = .ok (order, flow')) :
    (cycle s slot flow l).2.1 = flow' := by
  unfold cycle
  rw [hnext]
  cases order with
  | none => rfl
  | some order => rfl

/-- A slot whose order is refused is skipped, in its time. -/
theorem serve_of_refused (hslot : slot = Clock.nanos m) (hnow : l.now ≤ opened + m)
    (hwindow : slot ≤ s.duration.nanos)
    (hsend : Clock.reaches (Clock.nanos opened + s.duration.nanos) s.timeouts.send = true)
    (hinterval : Clock.reaches (Clock.nanos opened + s.duration.nanos) s.interval = true)
    (hnext : flow.next = .ok (order, flow')) (hrefuses : l.connection.RefusesFrom (opened + m))
    (hroom : tally.skipped.toNat + 1 < UInt64.size) :
    ∃ skipped cycles, serve s opened slot flow tally l =
        (if s.duration.nanos < slot + s.interval.nanos then .last else .more slot flow',
          { tally with skipped, cycles }, { l with now := opened + m }) ∧
      skipped.toNat = tally.skipped.toNat + 1 := by
  have hopens : l.expire (opened + roundUp slot Nanos.perMilli) = { l with now := opened + m } := by
    have hround : Nanos.perMilli * roundUp slot Nanos.perMilli = Nanos.perMilli * m :=
      (mul_roundUp_of_dvd (by decide) ⟨m, hslot⟩).trans hslot
    rw [Nat.eq_of_mul_eq_mul_left (by decide) hround, Link.expire, Nat.max_eq_right hnow]
  have hage : age opened (opened + m) = slot := by rw [age, Nat.add_sub_cancel_left, hslot]
  have htime : Clock.nanos (opened + m) = Clock.nanos opened + slot := by
    rw [hslot, Clock.nanos, Nat.mul_add]
    rfl
  have hle : Clock.nanos opened + slot ≤ Clock.nanos opened + s.duration.nanos :=
    Nat.add_le_add_left hwindow _
  obtain ⟨reason, hrefused⟩ := hrefuses (opened + m) le_rfl
  obtain ⟨c, hcycle, hfault, hsent⟩ := cycle_of_refused (s := s)
    (l := { l with now := opened + m }) slot hnext hrefused
    (htime ▸ Clock.reaches_of_le hle hsend)
  obtain ⟨skipped, hcount, hskipped⟩ := Tally.count_of_not_sent (y := tally.log c) hsent hroom
  refine ⟨skipped, c :: tally.cycles, ?_, hskipped⟩
  rw [serve_of_count hopens hwindow (hage.symm ▸ hwindow) hcycle hfault hcount
    (Clock.reaches_of_le hle hinterval), hage]
  rfl

/-- Where the ticker keeps an interval of whole milliseconds and the server refuses every order from
the next slot on, all slots that are left of the window are skipped, each in its time. -/
theorem serveFrom_of_refused (hticks : Clock.pause s.interval = s.interval.nanos)
    (hstep : s.interval.nanos = Clock.nanos step) (hpos : 0 < step)
    (hsend : Clock.reaches (Clock.nanos opened + s.duration.nanos) s.timeouts.send = true)
    (hinterval : Clock.reaches (Clock.nanos opened + s.duration.nanos) s.interval = true)
    (hflow : ∀ count, (flow.take count).2 = none) (hslot : slot = Clock.nanos m)
    (hnow : l.now ≤ opened + m) (hrefuses : l.connection.RefusesFrom (opened + m))
    (hlow : Clock.nanos (m + n * step) ≤ s.duration.nanos)
    (hhigh : s.duration.nanos < Clock.nanos (m + (n + 1) * step))
    (hroom : tally.skipped.toNat + n + 1 < UInt64.size) :
    ∃ skipped cycles, serveFrom s opened slot flow tally l =
        (none, { tally with skipped, cycles }, { l with now := opened + (m + n * step) }) ∧
      skipped.toNat = tally.skipped.toNat + n + 1 := by
  induction n generalizing slot m flow tally l with
  | zero =>
    obtain ⟨order, flow', hnext, -⟩ := OrderFlow.exists_next_of_take hflow
    rw [Nat.zero_mul, Nat.add_zero] at hlow ⊢
    rw [Nat.zero_add, Nat.one_mul, Clock.nanos, Nat.mul_add] at hhigh
    obtain ⟨skipped, cycles, hserve, hskipped⟩ := serve_of_refused hslot hnow (hslot ▸ hlow) hsend
      hinterval hnext hrefuses hroom
    have hlast : s.duration.nanos < slot + s.interval.nanos := by
      rw [hslot, hstep]
      exact hhigh
    rw [if_pos hlast] at hserve
    exact ⟨skipped, cycles, serveFrom_of_last hserve, hskipped⟩
  | succ n ih =>
    obtain ⟨order, flow', hnext, hflow'⟩ := OrderFlow.exists_next_of_take hflow
    have hshift (k : Nat) : m + (k + 1) * step = m + step + k * step := by
      rw [Nat.add_one_mul]
      omega
    rw [hshift] at hlow hhigh
    have hnextSlot : slot + s.interval.nanos = Clock.nanos (m + step) := by
      rw [hslot, hstep, Clock.nanos, Clock.nanos, Clock.nanos, Nat.mul_add]
    have hfits : slot + s.interval.nanos ≤ s.duration.nanos :=
      hnextSlot ▸ Nat.le_trans (Clock.nanos_le_nanos_add ..) hlow
    have hwindow : slot ≤ s.duration.nanos := Nat.le_trans (Nat.le_add_right ..) hfits
    have hroom' : tally.skipped.toNat + 1 < UInt64.size := by omega
    obtain ⟨skipped, cycles, hserve, hskipped⟩ := serve_of_refused hslot hnow hwindow hsend hinterval
      hnext hrefuses hroom'
    rw [if_neg (Nat.not_lt.2 hfits)] at hserve
    have hperiod : 0 < Clock.pause s.interval := by
      rw [hticks, hstep]
      exact Nat.mul_pos (by decide) hpos
    have hslot' : nextSlot (Clock.pause s.interval) slot slot = Clock.nanos (m + step) := by
      rw [nextSlot, if_pos (Nat.le_add_right ..), hticks, hnextSlot]
    rw [serveFrom_of_more hserve ⟨hperiod, hwindow⟩, hslot']
    have hlater : opened + m ≤ opened + (m + step) :=
      Nat.add_le_add_left (Nat.le_add_right ..) _
    have hrest : ({ tally with skipped, cycles } : Tally).skipped.toNat + n + 1 < UInt64.size := by
      dsimp only
      omega
    obtain ⟨skipped', cycles', hserved, hskipped'⟩ := ih (l := { l with now := opened + m }) hflow'
      rfl hlater (hrefuses.mono hlater) hlow hhigh hrest
    refine ⟨skipped', cycles', ?_, by dsimp only at hskipped'; omega⟩
    rw [hserved, hshift]

/-- Where the server takes the order of the first slot and refuses all orders from the second slot
on, the other slots of the window are skipped. -/
theorem perform_of_refused {c : Cycle} (hticks : Clock.pause s.interval = s.interval.nanos)
    (hstep : s.interval.nanos = Clock.nanos step) (hpos : 0 < step)
    (hsend : Clock.reaches (Clock.nanos l.now + s.duration.nanos) s.timeouts.send = true)
    (hinterval : Clock.reaches (Clock.nanos l.now + s.duration.nanos) s.interval = true)
    (hflow : ∀ count, (s.flow.take count).2 = none) (hcycle : cycle s 0 s.flow l = (c, flow', l'))
    (hfault : c.fault = none) (hcount : (Tally.empty.log c).count c = .ok tally)
    (hnow : l'.now ≤ l.now + step) (hrefuses : l'.connection.RefusesFrom (l.now + step))
    (hlow : Clock.nanos (step + n * step) ≤ s.duration.nanos)
    (hhigh : s.duration.nanos < Clock.nanos (step + (n + 1) * step))
    (hroom : tally.skipped.toNat + n + 1 < UInt64.size) :
    ∃ skipped cycles, perform s l =
        (none, { tally with skipped, cycles }, { l' with now := l.now + (step + n * step) }) ∧
      skipped.toNat = tally.skipped.toNat + n + 1 := by
  obtain ⟨order, flow, hnext, hrest⟩ := OrderFlow.exists_next_of_take hflow
  obtain rfl : flow' = flow := by
    rw [← flow_cycle (s := s) 0 l hnext, hcycle]
  have hreach : Clock.reaches (Clock.nanos l.now) s.duration = true := by
    rw [Clock.reaches_iff] at hsend ⊢
    omega
  have hage : age l.now l.now = 0 := by rw [age, Nat.sub_self]; rfl
  have hfits : 0 + s.interval.nanos ≤ s.duration.nanos := by
    rw [Nat.zero_add, hstep]
    exact Nat.le_trans (Clock.nanos_le_nanos_add ..) hlow
  have hperiod : 0 < Clock.pause s.interval := by
    rw [hticks, hstep]
    exact Nat.mul_pos (by decide) hpos
  have hserve := serve_of_count (expire_first l) (Nat.zero_le _) (hage.symm ▸ Nat.zero_le _) hcycle
    hfault hcount (Clock.reaches_of_le (Nat.le_add_right ..) hinterval)
  rw [if_neg (Nat.not_lt.2 hfits), hage] at hserve
  have hslot : nextSlot (Clock.pause s.interval) 0 0 = Clock.nanos step := by
    rw [nextSlot, if_pos (Nat.zero_le _), hticks, Nat.zero_add, hstep]
  rw [perform_of_reaches hreach, serveFrom_of_more hserve ⟨hperiod, Nat.zero_le _⟩, hslot]
  exact serveFrom_of_refused hticks hstep hpos hsend hinterval hrest rfl hnow hrefuses hlow hhigh
    hroom

end Trading

end MarketLoad
