import MarketLoad.Proofs.Session.Window
import Mathlib.Algebra.Group.Nat.Defs
import Mathlib.Order.Monotone.Basic

/-!
# The timetable of a window

The time that each cycle takes fixes when all cycles start: a cycle starts once the one before it is
over, but no earlier than the first multiple of the period after the start of that one
(`Timetable.start`). A slot that is served late or in time is followed by the same slot
(`Timetable.nextSlot_eq`), so serving a slot keeps to the timetable (`OnTime.Before.serve`), and
trading performs the cycles of the timetable that fit the window
(`Trading.cycles_follow_timetable`).
-/

namespace MarketLoad

open Venue

/-- A period, and the time that each of the cycles takes, in nanoseconds. -/
structure Timetable where
  period : Nat
  cost : Nat → Nat

namespace Timetable

variable {t : Timetable} {i j n : Nat}

/-- The first multiple of the period after a time. -/
def next (t : Timetable) (time : Nat) : Nat := (time / t.period + 1) * t.period

/-- When a cycle starts, counted from the start of the first one. -/
def start (t : Timetable) : Nat → Nat
  | 0 => 0
  | j + 1 => max (t.start j + t.cost j) (t.next (t.start j))

/-- The slot that a cycle serves. -/
def slot (t : Timetable) : Nat → Nat
  | 0 => 0
  | j + 1 => t.next (t.start j)

theorem lt_next (hpos : 0 < t.period) (time : Nat) : time < t.next time := by
  rw [next, Nat.add_one_mul]
  exact Nat.lt_div_mul_add hpos

theorem next_le_next {time time' : Nat} (h : time ≤ time') : t.next time ≤ t.next time' :=
  Nat.mul_le_mul_right _ (Nat.succ_le_succ (Nat.div_le_div_right h))

theorem next_of_dvd {time : Nat} (h : t.period ∣ time) : t.next time = time + t.period := by
  rw [next, Nat.add_one_mul, Nat.div_mul_cancel h]

theorem dvd_slot (t : Timetable) (j : Nat) : t.period ∣ t.slot j := by
  cases j with
  | zero => exact Nat.dvd_zero _
  | succ j => exact Nat.dvd_mul_left ..

theorem slot_le_start (t : Timetable) (j : Nat) : t.slot j ≤ t.start j := by
  cases j with
  | zero => exact Nat.le_refl _
  | succ j => exact Nat.le_max_right ..

theorem slot_add_le (t : Timetable) (j : Nat) : t.slot j + t.period ≤ t.slot (j + 1) := by
  rw [← next_of_dvd (t.dvd_slot j)]
  exact next_le_next (t.slot_le_start j)

/-- The next cycle starts in a later cell of the grid. -/
theorem start_div_lt (hpos : 0 < t.period) (j : Nat) :
    t.start j / t.period < t.start (j + 1) / t.period := by
  rw [Nat.lt_iff_add_one_le, Nat.le_div_iff_mul_le hpos]
  exact Nat.le_max_right ..

theorem start_div_strictMono (hpos : 0 < t.period) : StrictMono fun j => t.start j / t.period :=
  strictMono_nat_of_lt_succ (start_div_lt hpos)

theorem start_lt_slot (hpos : 0 < t.period) (h : i < j) : t.start i < t.slot j := by
  obtain ⟨k, rfl⟩ := Nat.exists_eq_add_of_lt h
  apply Nat.lt_of_lt_of_le (lt_next hpos _)
  refine Nat.mul_le_mul_right _ (Nat.succ_le_succ ?_)
  exact (start_div_strictMono hpos).monotone (Nat.le_add_right i k)

/-- Cycles that are over by the next slot start on the grid. -/
theorem start_of_prompt (hpos : 0 < t.period)
    (h : ∀ j < n, t.start j + t.cost j ≤ t.slot (j + 1)) (hj : j ≤ n) :
    t.start j = j * t.period := by
  induction j with
  | zero => exact (Nat.zero_mul _).symm
  | succ j ih =>
    have hstart := ih (Nat.le_of_succ_le hj)
    have hmax : t.start (j + 1) = t.slot (j + 1) := Nat.max_eq_right (h j hj)
    rw [hmax, slot, next, hstart, Nat.mul_div_cancel _ hpos]

theorem slot_of_prompt (hpos : 0 < t.period)
    (h : ∀ j < n, t.start j + t.cost j ≤ t.slot (j + 1)) (hj : j ≤ n) :
    t.slot j = j * t.period := by
  cases j with
  | zero => exact (Nat.zero_mul _).symm
  | succ j =>
    rw [slot, next, start_of_prompt hpos h (Nat.le_of_succ_le hj), Nat.mul_div_cancel _ hpos]

/-- The slot after one that was served late or in time is the first multiple of the period after
the time at which it was served. -/
theorem nextSlot_eq {slot time : Nat} (htolerance : Trading.tolerance < t.period)
    (hslot : t.period ∣ slot) (hle : slot ≤ time) :
    Trading.nextSlot t.period slot time = t.next time := by
  obtain ⟨k, rfl⟩ := hslot
  obtain ⟨late, rfl⟩ := Nat.exists_eq_add_of_le hle
  have hpos : 0 < t.period := Nat.lt_of_le_of_lt (Nat.zero_le _) htolerance
  have hcell : (t.period * k + late) / t.period = k + late / t.period :=
    Nat.mul_add_div hpos k late
  unfold Trading.nextSlot
  split
  · rename_i htime
    have hsame : late / t.period = 0 := Nat.div_eq_of_lt (by omega)
    rw [next, hcell, hsame, Nat.add_zero, Nat.add_one_mul, Nat.mul_comm]
  · have hlate := Nat.div_add_mod late t.period
    have hback : t.period * k + late - t.period * k = late := Nat.add_sub_cancel_left ..
    rw [next, hcell, hback, Nat.add_one_mul, Nat.add_mul, Nat.mul_comm k,
      Nat.mul_comm (late / t.period)]
    omega

end Timetable

/-- The time that a cycle takes, in nanoseconds. -/
def Cycle.took (c : Cycle) : Nat := Clock.nanos (c.finish - c.start)

/-- The timetable for the times that some cycles take. -/
def Timetable.ofCycles (period : Nat) (cycles : List Cycle) : Timetable :=
  { period, cost := fun j => (cycles[j]?.map (·.took)).getD 0 }

namespace Trading

variable {s : SessionSettings} {t : Timetable} {opened slot j n : Nat} {flow : OrderFlow}
  {tally tally' : Tally} {l l' : Link} {served : Served}

theorem finish_cycle (slot : Nat) (flow : OrderFlow) (l : Link) :
    (cycle s slot flow l).1.finish = (cycle s slot flow l).2.2.now := by
  unfold cycle
  split <;> rfl

/-- A cycle of the timetable starts in the window and serves a slot in the window. -/
def Fits (t : Timetable) (s : SessionSettings) (j : Nat) : Prop :=
  t.start j ≤ s.duration.nanos ∧ t.slot j ≤ s.duration.nanos

instance : Decidable (Fits t s j) := inferInstanceAs (Decidable (_ ∧ _))

/-- The cycles of a tally, the last one first, are the first ones of the timetable. -/
structure OnTime (t : Timetable) (s : SessionSettings) (opened : Nat) (cycles : List Cycle) :
    Prop where
  timed : ∀ j c, cycles.reverse[j]? = some c →
    opened ≤ c.start ∧ age opened c.start = t.start j ∧ c.slot = t.slot j
  fits : ∀ j < cycles.length, Fits t s j

/-- The cycles are on time, and a slot comes next. -/
structure OnTime.Before (t : Timetable) (s : SessionSettings) (opened slot : Nat)
    (cycles : List Cycle) (now : Nat) : Prop extends OnTime t s opened cycles where
  le_now : opened ≤ now
  slot_eq : slot = t.slot cycles.length
  start_eq : max (age opened now) slot = t.start cycles.length

theorem OnTime.Before.zero (t : Timetable) (s : SessionSettings) (now : Nat) :
    Before t s now 0 [] now where
  timed _ _ h := absurd h (by simp)
  fits _ h := absurd h (Nat.not_lt_zero _)
  le_now := Nat.le_refl _
  slot_eq := rfl
  start_eq := by simp [age, Clock.nanos, Timetable.start]

/-- A slot on whole milliseconds is waited for to the nanosecond. -/
theorem age_expire (hopened : opened ≤ l.now) (hslot : Nanos.perMilli ∣ slot) :
    opened ≤ (l.expire (opened + roundUp slot Nanos.perMilli)).now ∧
      age opened (l.expire (opened + roundUp slot Nanos.perMilli)).now =
        max (age opened l.now) slot := by
  have hround : Nanos.perMilli * roundUp slot Nanos.perMilli = slot :=
    mul_roundUp_of_dvd (by decide) hslot
  generalize roundUp slot Nanos.perMilli = millis at hround
  subst hround
  have hmax : max l.now (opened + millis) - opened = max (l.now - opened) millis := by omega
  refine ⟨Nat.le_trans hopened (Nat.le_max_left ..), ?_⟩
  simp only [Link.expire, age, Clock.nanos, hmax, Nat.mul_max_mul_left]

/-- A cycle that starts when the timetable says is on time. -/
theorem OnTime.Before.enter {cycles : List Cycle} {now : Nat} {c : Cycle}
    (h : Before t s opened slot cycles now) (hopened : opened ≤ c.start)
    (hstart : age opened c.start = t.start cycles.length) (hslot : c.slot = slot)
    (hfits : Fits t s cycles.length) : OnTime t s opened (c :: cycles) where
  timed j c' hc' := by
    rw [List.reverse_cons] at hc'
    rcases Nat.lt_or_ge j cycles.length with hlt | hge
    · rw [List.getElem?_append_left (by rwa [List.length_reverse])] at hc'
      exact h.timed j c' hc'
    · obtain ⟨hj, -⟩ := List.getElem?_eq_some_iff.1 hc'
      have hlast : j = cycles.reverse.length := by simp at hj ⊢; omega
      rw [hlast, List.getElem?_concat_length] at hc'
      cases hc'
      rw [hlast, List.length_reverse]
      exact ⟨hopened, hstart, hslot.trans h.slot_eq⟩
  fits j hj := by
    rcases Nat.lt_or_eq_of_le (Nat.le_of_lt_succ hj) with hlt | rfl
    · exact h.fits j hlt
    · exact hfits

/-- A cycle that fits the window leaves room for the interval before it. -/
theorem Fits.room (hperiod : t.period = s.interval.nanos) (h : Fits t s (j + 1)) :
    t.slot j + s.interval.nanos ≤ s.duration.nanos :=
  Nat.le_trans (hperiod ▸ t.slot_add_le j) h.2

/-- Serving a slot that is next in the timetable keeps to it, and ends the window only if the cycle
after that does not fit. -/
theorem OnTime.Before.serve (h : Before t s opened slot tally.cycles l.now)
    (hticks : s.KeepsInterval) (hperiod : t.period = s.interval.nanos)
    (htolerance : tolerance < t.period) (hwhole : Nanos.perMilli ∣ t.period)
    (hcost : ∀ c, tally'.cycles = c :: tally.cycles → t.cost tally.cycles.length = c.took)
    (hs : serve s opened slot flow tally l = (served, tally', l')) :
    OnTime t s opened tally'.cycles ∧ (served = .last → ¬ Fits t s tally'.cycles.length) ∧
      ∀ time flow', served = .more time flow' → slot ≤ s.duration.nanos ∧
        Before t s opened (nextSlot (Clock.pause s.interval) slot time) tally'.cycles l'.now := by
  have hgrid : t.period ∣ slot := h.slot_eq ▸ t.dvd_slot _
  obtain ⟨hopened, hage⟩ := age_expire h.le_now (Nat.dvd_trans hwhole hgrid)
  rw [h.start_eq] at hage
  obtain ⟨hlate, rfl, rfl, rfl⟩ | ⟨hwindow, htime, c, flow', hcycle, hcycles, hend⟩ :=
    serve_cases hs rfl
  · refine ⟨h.toOnTime, fun _ hfits => ?_, nofun⟩
    rw [hage] at hlate
    rw [h.slot_eq] at hlate
    exact hlate.elim (Nat.not_lt.2 hfits.2) (Nat.not_lt.2 hfits.1)
  generalize l.expire (opened + roundUp slot Nanos.perMilli) = opens at *
  have hfits : Fits t s tally.cycles.length := ⟨hage ▸ htime, h.slot_eq ▸ hwindow⟩
  obtain ⟨hslot, hstart⟩ := slot_cycle (s := s) slot flow opens
  have hfinish := finish_cycle (s := s) slot flow opens
  have hforward := (cycle_end (s := s) slot flow opens).1
  rw [hcycle] at hslot hstart hfinish hforward
  dsimp only at hslot hstart hfinish hforward
  rw [← hstart] at hage hopened hforward
  have honTime := h.enter hopened hage hslot hfits
  rw [← hcycles] at honTime
  have hlength : tally'.cycles.length = tally.cycles.length + 1 := by
    rw [hcycles, List.length_cons]
  refine ⟨honTime, fun hserved hnext => ?_, ?_⟩
  · -- The window ends early only where the next slot lies past it.
    rw [hlength] at hnext
    have hroom := hnext.room hperiod
    rw [← h.slot_eq] at hroom
    exact Nat.not_lt.2 hroom (no_room_of_serve (hserved ▸ hs) (by simp [hcycles]))
  rintro time flow'' rfl
  obtain ⟨fault, hbroken, -⟩ | ⟨-, hlast | hmore⟩ := hend
  · cases hbroken
  · cases hlast
  cases hmore
  rw [← hstart, hage, SessionSettings.keepsInterval_iff.1 hticks, ← hperiod,
    Timetable.nextSlot_eq htolerance hgrid (h.slot_eq ▸ t.slot_le_start _)]
  refine ⟨hwindow, honTime, by omega, ?_, ?_⟩
  · rw [hlength]
    rfl
  · -- The cycle ends its own time after its start.
    have hover : age opened l'.now = t.start tally.cycles.length + t.cost tally.cycles.length := by
      rw [← hage, hcost c hcycles, ← hfinish, Cycle.took, age, age, Clock.nanos, Clock.nanos,
        Clock.nanos, ← Nat.mul_add]
      congr 1
      omega
    rw [hover, hlength]
    rfl

/-- Serving all slots keeps to the timetable, and an unbroken worker performs the cycles up to the
first that does not fit the window. -/
theorem OnTime.Before.serveFrom (h : Before t s opened slot tally.cycles l.now)
    (hticks : s.KeepsInterval) (hperiod : t.period = s.interval.nanos)
    (htolerance : tolerance < t.period) (hwhole : Nanos.perMilli ∣ t.period)
    (hcost : ∀ j c, (serveFrom s opened slot flow tally l).2.1.cycles.reverse[j]? = some c →
      t.cost j = c.took) :
    OnTime t s opened (serveFrom s opened slot flow tally l).2.1.cycles ∧
      ((serveFrom s opened slot flow tally l).1 = none →
        ¬ Fits t s (serveFrom s opened slot flow tally l).2.1.cycles.length) := by
  -- What a slot adds stays where it is among the cycles of the window.
  have hkept {tally' final : Tally} (hadds : ∃ added, final.cycles = added ++ tally'.cycles)
      (hcost : ∀ j c, final.cycles.reverse[j]? = some c → t.cost j = c.took) (tally : Tally)
      (c : Cycle) (hcycles : tally'.cycles = c :: tally.cycles) :
      t.cost tally.cycles.length = c.took := by
    obtain ⟨added, hadded⟩ := hadds
    apply hcost
    rw [hadded, hcycles, List.reverse_append, List.reverse_cons]
    simp
  induction slot, flow, tally, l using serveFrom.induct s opened with
  | case1 slot flow tally l fault tally' l' hs =>
    rw [serveFrom_of_broken hs] at hcost ⊢
    obtain ⟨honTime, -⟩ :=
      h.serve hticks hperiod htolerance hwhole (hkept ⟨[], rfl⟩ hcost tally) hs
    refine ⟨honTime, fun hnone => ?_⟩
    cases hnone
  | case2 slot flow tally l tally' l' hs =>
    rw [serveFrom_of_last hs] at hcost ⊢
    obtain ⟨honTime, hlast, -⟩ :=
      h.serve hticks hperiod htolerance hwhole (hkept ⟨[], rfl⟩ hcost tally) hs
    exact ⟨honTime, fun _ => hlast rfl⟩
  | case3 slot flow tally l time flow' tally' l' hs hnext ih =>
    rw [serveFrom_of_more hs hnext] at hcost ⊢
    obtain ⟨-, -, hmore⟩ :=
      h.serve hticks hperiod htolerance hwhole (hkept (serveFrom_adds ..).1 hcost tally) hs
    exact ih (hmore _ _ rfl).2 hcost
  | case4 slot flow tally l time flow' tally' l' hs hnext =>
    rw [serveFrom_of_only hs hnext] at hcost
    obtain ⟨-, -, hmore⟩ :=
      h.serve hticks hperiod htolerance hwhole (hkept ⟨[], rfl⟩ hcost tally) hs
    have hpause := SessionSettings.keepsInterval_iff.1 hticks
    exact absurd ⟨by omega, (hmore _ _ rfl).1⟩ hnext

/-- The cycles of a timetable that are performed are those that fit the window, up to the first that
does not. -/
theorem OnTime.lt_length_iff {cycles : List Cycle} (h : OnTime t s opened cycles)
    (hend : ¬ Fits t s cycles.length) : j < cycles.length ↔ ∀ i ≤ j, Fits t s i := by
  refine ⟨fun hj i hi => h.fits i (Nat.lt_of_le_of_lt hi hj), fun hfits => ?_⟩
  exact Nat.lt_of_not_le fun hle => hend (hfits _ hle)

/-- Cycles that are over by the next slot are as many as there are slots in the window. -/
theorem OnTime.length_of_prompt {cycles : List Cycle} (h : OnTime t s opened cycles)
    (hend : ¬ Fits t s cycles.length) (hperiod : t.period = s.interval.nanos) (hpos : 0 < t.period)
    (hprompt : ∀ j < cycles.length, t.start j + t.cost j ≤ t.slot (j + 1)) :
    cycles.length = s.duration.nanos / s.interval.nanos + 1 := by
  have hstart {j : Nat} (hj : j ≤ cycles.length) := Timetable.start_of_prompt hpos hprompt hj
  have hslot {j : Nat} (hj : j ≤ cycles.length) := Timetable.slot_of_prompt hpos hprompt hj
  have hpast : s.duration.nanos < cycles.length * t.period := by
    apply Nat.lt_of_not_le
    intro hle
    exact hend ⟨hstart (Nat.le_refl _) ▸ hle, hslot (Nat.le_refl _) ▸ hle⟩
  rw [← hperiod]
  cases hlength : cycles.length with
  | zero =>
    rw [hlength, Nat.zero_mul] at hpast
    exact absurd hpast (Nat.not_lt_zero _)
  | succ n =>
    have hfits := (h.fits n (by omega)).2
    rw [hslot (by omega)] at hfits
    rw [hlength] at hpast
    have hle := (Nat.le_div_iff_mul_le hpos).2 hfits
    have hlt := (Nat.div_lt_iff_lt_mul hpos).2 hpast
    omega

/-- Where the interval is a number of whole milliseconds past the tolerance and the ticker keeps it,
the cycles of a window start as in the timetable for the times that they take, each in a cell of the
grid of its own, and no slot is served that was over when an earlier cycle started. An unbroken
worker performs exactly the cycles up to the first that starts after the window or serves a slot
after it. So cycles that are over by the next slot are as many as the window has slots, and a session
announces that many as far as 64 bits count them. -/
theorem cycles_follow_timetable (s : SessionSettings) (l : Link) (hticks : s.KeepsInterval)
    (hwhole : Nanos.perMilli ∣ s.interval.nanos) (hlong : tolerance < s.interval.nanos) :
    let cycles := (perform s l).2.1.cycles.reverse
    let t := Timetable.ofCycles s.interval.nanos cycles
    (∀ j c, cycles[j]? = some c →
      l.now ≤ c.start ∧ age l.now c.start = t.start j ∧ c.slot = t.slot j ∧ Fits t s j) ∧
    cycles.Pairwise (fun c c' =>
      age l.now c.start / s.interval.nanos < age l.now c'.start / s.interval.nanos ∧
        age l.now c.start < c'.slot) ∧
    ((perform s l).1 = none →
      (∀ j, j < cycles.length ↔ ∀ i ≤ j, Fits t s i) ∧
      ((∀ j < cycles.length, t.start j + t.cost j ≤ t.slot (j + 1)) →
        cycles.length = s.duration.nanos / s.interval.nanos + 1 ∧
        s.maxCycles.toNat = min cycles.length (UInt64.size - 1))) := by
  intro cycles t
  have hperiod : t.period = s.interval.nanos := rfl
  have hpos : 0 < t.period := Nat.lt_of_le_of_lt (Nat.zero_le _) hlong
  have hcost (j : Nat) (c : Cycle) (hc : cycles[j]? = some c) : t.cost j = c.took := by
    simp only [t, Timetable.ofCycles, hc, Option.map_some, Option.getD_some]
  obtain ⟨honTime, hend⟩ : OnTime t s l.now (perform s l).2.1.cycles ∧
      ((perform s l).1 = none → ¬ Fits t s (perform s l).2.1.cycles.length) := by
    change ∀ j c, (perform s l).2.1.cycles.reverse[j]? = some c → t.cost j = c.took at hcost
    clear_value t
    by_cases hreach : Clock.reaches (Clock.nanos l.now) s.duration = true
    · rw [perform_of_reaches hreach] at hcost ⊢
      exact (OnTime.Before.zero t s l.now).serveFrom hticks hperiod (hperiod ▸ hlong)
        (hperiod ▸ hwhole) hcost
    · rw [perform, if_neg hreach]
      refine ⟨(OnTime.Before.zero t s l.now).toOnTime, fun hnone => ?_⟩
      cases hnone
  have hlength : cycles.length = (perform s l).2.1.cycles.length := List.length_reverse
  rw [← hlength] at hend
  refine ⟨fun j c hc => ?_, ?_, fun hnone => ⟨fun j => ?_, fun hprompt => ?_⟩⟩
  · obtain ⟨hopened, hstart, hslot⟩ := honTime.timed j c hc
    obtain ⟨hj, -⟩ := List.getElem?_eq_some_iff.1 hc
    exact ⟨hopened, hstart, hslot, honTime.fits j (hlength ▸ hj)⟩
  · rw [List.pairwise_iff_getElem]
    intro i j hi hj hij
    obtain ⟨-, hstart, -⟩ := honTime.timed i _ (List.getElem?_eq_getElem hi)
    obtain ⟨-, hstart', hslot'⟩ := honTime.timed j _ (List.getElem?_eq_getElem hj)
    rw [hstart, hstart', hslot']
    exact ⟨Timetable.start_div_strictMono hpos hij, Timetable.start_lt_slot hpos hij⟩
  · exact hlength ▸ honTime.lt_length_iff (hlength ▸ hend hnone)
  · have hcount := honTime.length_of_prompt (hlength ▸ hend hnone) hperiod hpos
      (hlength ▸ hprompt)
    rw [← hlength] at hcount
    exact ⟨hcount, hcount ▸ SessionSettings.toNat_maxCycles s⟩

/-- The settings of a session that trades one symbol and waits so long for each reply. -/
private def waiting (price : Decimal) (duration interval drain : Span) : SessionSettings :=
  let s := SessionSettings.standard ⟨"a"⟩ ⟨"mock", 8888⟩ ⟨[⟨⟨"X"⟩, ⟨price⟩⟩]⟩
  { s with duration, interval, timeouts := { s.timeouts with drain }, seed := some 3 }

/-- A silent server makes every cycle of a window take 33 ms, three more than the interval. The
second one is served within the tolerance of its slot, the third one is not. -/
theorem cycles_follow_timetable_late :
    let s := waiting ⟨false, 100, 0, by decide, by decide⟩ (.ofMillis 120) (.ofMillis 30)
      (.ofMillis 33)
    let l : Link := ⟨0, .opening .quiet 0⟩
    let cycles := (perform s l).2.1.cycles.reverse
    let t := Timetable.ofCycles s.interval.nanos cycles
    s.KeepsInterval ∧ Nanos.perMilli ∣ s.interval.nanos ∧ tolerance < s.interval.nanos ∧
      (perform s l).1 = none ∧
      cycles.map (fun c => (c.start, c.slot)) =
        [(0, 0), (33, 30000000), (66, 60000000), (99, 90000000)] ∧
      (∀ j, j < 4 ↔ ∀ i ≤ j, Fits t s i) := by
  intro s l cycles t
  obtain ⟨hticks, hwhole, hlong⟩ : s.KeepsInterval ∧ Nanos.perMilli ∣ s.interval.nanos ∧
      tolerance < s.interval.nanos := by
    decide +kernel
  obtain ⟨hnone, hcycles⟩ : (perform s l).1 = none ∧ cycles.map (fun c => (c.start, c.slot)) =
      [(0, 0), (33, 30000000), (66, 60000000), (99, 90000000)] := by
    decide +kernel
  have hlength : cycles.length = 4 := by simpa using congrArg List.length hcycles
  obtain ⟨-, -, hend⟩ := cycles_follow_timetable s l hticks hwhole hlong
  obtain ⟨hall, -⟩ := hend hnone
  exact ⟨hticks, hwhole, hlong, hnone, hcycles, hlength ▸ hall⟩

/-- A worker that breaks in its second cycle performs no further ones, although they fit the window;
and a session announces no more cycles than 64 bits count, however many its window has. -/
theorem broken_worker_leaves_timetable :
    let s := waiting ⟨false, 78000000000000000000000000000, 0, by decide, by decide⟩
      (.ofMillis 3000) (.ofMillis 1000) (.ofMillis 100)
    let l : Link := ⟨0, .opening .quiet 0⟩
    let cycles := (perform s l).2.1.cycles.reverse
    let t := Timetable.ofCycles s.interval.nanos cycles
    let endless : SessionSettings :=
      { s with duration := .ofMillis (6 * 2 ^ 64), interval := .ofMillis 6 }
    (s.KeepsInterval ∧ Nanos.perMilli ∣ s.interval.nanos ∧ tolerance < s.interval.nanos ∧
      cycles.length = 2 ∧ ∀ i ≤ 3, Fits t s i) ∧
    (Nanos.perMilli ∣ endless.duration.nanos ∧ Nanos.perMilli ∣ endless.interval.nanos ∧
      tolerance < endless.interval.nanos ∧
      Clock.reaches (Clock.nanos l.now + endless.duration.nanos) endless.interval = true ∧
      endless.maxCycles.toNat + 2 = endless.duration.nanos / endless.interval.nanos + 1) := by
  decide +kernel

end Trading

end MarketLoad
