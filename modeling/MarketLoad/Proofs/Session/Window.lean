import MarketLoad.Proofs.Session.ClockEnd
import MarketLoad.Proofs.Session.Refusal
import MarketLoad.Run.Result

/-!
# The order cycles of a trading window

What the cycles of a window come to is kept in a ledger (`Trading.Ledger`): they serve growing
multiples of the period, inside the window and in their time. Serving a slot keeps the ledger
(`Ledger.Before.serve`), so trading does (`Ledger.Before.serveFrom`). Where the ticker keeps the
interval (`SessionSettings.KeepsInterval`) the period is the interval, and the cycles fill the window
(`Trading.FillsWindow`).
-/

namespace MarketLoad

open Venue

namespace Trading

variable {s : SessionSettings} {opened slot time bound : Nat} {flow flow' : OrderFlow}
  {tally tally' : Tally} {l l' : Link}

theorem slot_add_le_nextSlot {interval : Nat} (h : 0 < interval) :
    slot + interval ≤ nextSlot interval slot time := by
  unfold nextSlot
  split
  · exact Nat.le_refl _
  · have hlt := Nat.mod_lt (time - slot) h
    have hle := Nat.mod_le (time - slot) interval
    omega

theorem dvd_nextSlot {interval : Nat} (h : interval ∣ slot) :
    interval ∣ nextSlot interval slot time := by
  unfold nextSlot
  split
  · exact (Nat.dvd_add_right h).2 (Nat.dvd_refl _)
  · rename_i hlate
    have hle := Nat.mod_le (time - slot) interval
    have hsplit : time + interval - (time - slot) % interval =
        slot + ((time - slot) - (time - slot) % interval) + interval := by
      omega
    rw [hsplit]
    exact Nat.dvd_add (Nat.dvd_add h (Nat.dvd_sub_mod _)) (Nat.dvd_refl _)

/-- The books of a window: its cycles, the last one first, serve growing multiples of the period in
the window, each in its time, and lie a period apart. -/
structure Ledger (s : SessionSettings) (opened : Nat) (tally : Tally) : Prop where
  ordered : tally.cycles.Pairwise fun c c' => c'.slot < c.slot
  grid : ∀ c ∈ tally.cycles, Clock.pause s.interval ∣ c.slot
  window : ∀ c ∈ tally.cycles, c.slot ≤ s.duration.nanos
  timely : ∀ c ∈ tally.cycles, Clock.nanos opened + c.slot ≤ Clock.nanos c.start ∧
    Clock.nanos c.start ≤ Clock.nanos opened + s.duration.nanos
  spaced : tally.cycles.length * Clock.pause s.interval ≤ s.duration.nanos + Clock.pause s.interval

/-- The books of a window in which a slot comes next. -/
structure Ledger.Before (s : SessionSettings) (opened slot : Nat) (tally : Tally) : Prop
    extends Ledger s opened tally where
  onGrid : Clock.pause s.interval ∣ slot
  below : ∀ c ∈ tally.cycles, c.slot < slot
  room : tally.cycles.length * Clock.pause s.interval ≤ slot

theorem Ledger.Before.start (s : SessionSettings) (opened : Nat) :
    Before s opened 0 .empty where
  ordered := .nil
  grid _ hc := absurd hc List.not_mem_nil
  window _ hc := absurd hc List.not_mem_nil
  timely _ hc := absurd hc List.not_mem_nil
  spaced := by simp only [Tally.empty, List.length_nil, Nat.zero_mul, Nat.zero_le]
  onGrid := Nat.dvd_zero _
  below _ hc := absurd hc List.not_mem_nil
  room := by simp only [Tally.empty, List.length_nil, Nat.zero_mul, Nat.le_refl]

/-- A cycle that is served in the window and in its time is entered into the books. -/
theorem Ledger.Before.enter {c : Cycle} (h : Before s opened slot tally) (hslot : c.slot = slot)
    (hwindow : slot ≤ s.duration.nanos)
    (htimely : Clock.nanos opened + slot ≤ Clock.nanos c.start ∧
      Clock.nanos c.start ≤ Clock.nanos opened + s.duration.nanos)
    (hcycles : tally'.cycles = c :: tally.cycles) :
    Ledger s opened tally' ∧ ∀ slot', slot < slot' → Clock.pause s.interval ∣ slot' →
      slot + Clock.pause s.interval ≤ slot' → Before s opened slot' tally' := by
  have hledger : Ledger s opened tally' := by
    refine ⟨?_, ?_, ?_, ?_, ?_⟩
    · rw [hcycles, List.pairwise_cons]
      exact ⟨fun c' hc' => hslot ▸ h.below c' hc', h.ordered⟩
    · rw [hcycles, List.forall_mem_cons]
      exact ⟨hslot ▸ h.onGrid, h.grid⟩
    · rw [hcycles, List.forall_mem_cons]
      exact ⟨hslot ▸ hwindow, h.window⟩
    · rw [hcycles, List.forall_mem_cons]
      exact ⟨hslot ▸ htimely, h.timely⟩
    · have hroom := h.room
      rw [hcycles, List.length_cons, Nat.succ_mul]
      omega
  refine ⟨hledger, fun slot' hlt hgrid hroom => ⟨hledger, hgrid, ?_, ?_⟩⟩
  · rw [hcycles, List.forall_mem_cons]
    exact ⟨hslot ▸ hlt, fun c' hc' => Nat.lt_trans (h.below c' hc') hlt⟩
  · have hroom' := h.room
    rw [hcycles, List.length_cons, Nat.succ_mul]
    omega

/-- A slot that is waited for is served in its time. -/
theorem timely_of_expire {opens : Link} (hopened : opened ≤ l.now)
    (hopens : l.expire (opened + roundUp slot Nanos.perMilli) = opens)
    (hage : age opened opens.now ≤ s.duration.nanos) :
    Clock.nanos opened + slot ≤ Clock.nanos opens.now ∧
      Clock.nanos opens.now ≤ Clock.nanos opened + s.duration.nanos := by
  have hround := le_mul_roundUp slot (show 0 < Nanos.perMilli by decide)
  have hnow : opens.now = max l.now (opened + roundUp slot Nanos.perMilli) := by
    rw [← hopens]; rfl
  have hle : opened ≤ opens.now := by omega
  have hsplit : Nanos.perMilli * opens.now =
      Nanos.perMilli * opened + Nanos.perMilli * (opens.now - opened) := by
    rw [← Nat.mul_add, Nat.add_sub_cancel' hle]
  have hwait : Nanos.perMilli * roundUp slot Nanos.perMilli ≤
      Nanos.perMilli * (opens.now - opened) := Nat.mul_le_mul_left _ (by omega)
  simp only [age, Clock.nanos] at hage ⊢
  omega

/-- Serving a slot keeps the books. -/
theorem Ledger.Before.serve {served : Served} (h : Before s opened slot tally)
    (hopened : opened ≤ l.now)
    (hs : serve s opened slot flow tally l = (served, tally', l')) :
    Ledger s opened tally' ∧ opened ≤ l'.now ∧
      ∀ time flow', served = .more time flow' → 0 < Clock.pause s.interval →
        Before s opened (nextSlot (Clock.pause s.interval) slot time) tally' := by
  have hnow := (serve_end (s := s) slot flow tally hopened).1
  rw [hs] at hnow
  obtain ⟨-, rfl, rfl, rfl⟩ | ⟨hwindow, hage, c, flow', hcycle, hcycles, -⟩ := serve_cases hs rfl
  · exact ⟨h.toLedger, hnow, nofun⟩
  · obtain ⟨hslot, hstart⟩ := slot_cycle (s := s) slot flow
      (l.expire (opened + roundUp slot Nanos.perMilli))
    rw [hcycle] at hslot hstart
    have htimely := timely_of_expire (s := s) hopened rfl hage
    rw [← hstart] at htimely
    obtain ⟨hledger, hnext⟩ := h.enter hslot hwindow htimely hcycles
    exact ⟨hledger, hnow, fun time flow' _ hpos =>
      hnext _ (slot_lt_nextSlot hpos) (dvd_nextSlot h.onGrid) (slot_add_le_nextSlot hpos)⟩

/-- Serving all slots keeps the books. -/
theorem Ledger.Before.serveFrom (h : Before s opened slot tally) (hopened : opened ≤ l.now) :
    Ledger s opened (serveFrom s opened slot flow tally l).2.1 := by
  induction slot, flow, tally, l using serveFrom.induct s opened with
  | case1 slot flow tally l fault tally' l' hs =>
    rw [serveFrom_of_broken hs]
    exact (h.serve hopened hs).1
  | case2 slot flow tally l tally' l' hs =>
    rw [serveFrom_of_last hs]
    exact (h.serve hopened hs).1
  | case3 slot flow tally l time flow' tally' l' hs hmore ih =>
    obtain ⟨-, hnow, hnext⟩ := h.serve hopened hs
    rw [serveFrom_of_more hs hmore]
    exact ih (hnext time flow' rfl hmore.1) hnow
  | case4 slot flow tally l time flow' tally' l' hs hmore =>
    rw [serveFrom_of_only hs hmore]
    exact (h.serve hopened hs).1

/-! ### The first cycle and the number of cycles -/

/-- A window starts with a cycle for its first slot; without an interval there is no other. -/
theorem serveFrom_start (s : SessionSettings) (flow : OrderFlow) (l : Link) :
    ∃ c later, (serveFrom s l.now 0 flow .empty l).2.1.cycles = later ++ [c] ∧
      c.slot = 0 ∧ c.start = l.now ∧ (Clock.pause s.interval = 0 → later = []) := by
  have hage : age l.now l.now = 0 := by rw [age, Nat.sub_self]; rfl
  rcases hs : serve s l.now 0 flow .empty l with ⟨served, tally, l'⟩
  obtain ⟨hlate, -⟩ | ⟨-, -, c, flow', hcycle, hcycles, hend⟩ := serve_cases hs (expire_first l)
  · rw [hage] at hlate
    omega
  · obtain ⟨hslot, hstart⟩ := slot_cycle (s := s) 0 flow l
    rw [hcycle] at hslot hstart
    refine ⟨c, ?_⟩
    obtain ⟨fault, rfl, -⟩ | ⟨-, rfl | rfl⟩ := hend
    · exact ⟨[], by rw [serveFrom_of_broken hs]; exact hcycles, hslot, hstart, fun _ => rfl⟩
    · exact ⟨[], by rw [serveFrom_of_last hs]; exact hcycles, hslot, hstart, fun _ => rfl⟩
    · by_cases hnext : 0 < Clock.pause s.interval ∧ 0 ≤ s.duration.nanos
      · obtain ⟨⟨later, hlater⟩, -⟩ := serveFrom_adds (s := s) l.now
          (nextSlot (Clock.pause s.interval) 0 (age l.now l.now)) flow' tally l'
        rw [hcycles] at hlater
        refine ⟨later, ?_, hslot, hstart, fun hzero => absurd hnext.1 (by omega)⟩
        rw [serveFrom_of_more hs hnext]
        exact hlater
      · exact ⟨[], by rw [serveFrom_of_only hs hnext]; exact hcycles, hslot, hstart,
          fun _ => rfl⟩

/-- A window has a cycle at its start and at most one for each further period, and only the first
one if there is no interval. -/
theorem length_cycles_perform_le (s : SessionSettings) (l : Link) :
    (perform s l).2.1.cycles.length ≤ s.duration.nanos / Clock.pause s.interval + 1 := by
  by_cases hreach : Clock.reaches (Clock.nanos l.now) s.duration = true
  · rw [perform_of_reaches hreach]
    obtain hzero | hpos := Nat.eq_zero_or_pos (Clock.pause s.interval)
    · obtain ⟨c, later, hcycles, -, -, honly⟩ := serveFrom_start s s.flow l
      rw [hcycles, honly hzero]
      exact Nat.le_add_left ..
    · have hledger : Ledger s l.now (serveFrom s l.now 0 s.flow .empty l).2.1 :=
        (Ledger.Before.start s l.now).serveFrom (Nat.le_refl l.now)
      rw [← Nat.add_div_right _ hpos]
      exact (Nat.le_div_iff_mul_le hpos).2 hledger.spaced
  · rw [perform, if_neg hreach]
    exact Nat.zero_le _

/-- An unbroken worker counts each of its cycles as sent or skipped, and it has made one. -/
theorem counts_of_perform_eq_none (h : (perform s l).1 = none) :
    (perform s l).2.1.sent.toNat + (perform s l).2.1.skipped.toNat =
        (perform s l).2.1.cycles.length ∧ 1 ≤ (perform s l).2.1.cycles.length := by
  have hperform := perform_of_eq_none h
  rw [hperform] at h ⊢
  obtain ⟨c, later, hcycles, -⟩ := serveFrom_start s s.flow l
  refine ⟨((serveFrom_adds l.now 0 s.flow .empty l).2 h .empty).sent_add_skipped, ?_⟩
  rw [hcycles, List.length_append]
  exact Nat.le_add_left ..

end Trading

/-! ### What a session reports -/

/-- A session reports nothing, as one that is not connected or whose worker breaks, or it reports
what it has traded. -/
theorem Session.outcome_cases (start : Nat) (s : SessionSettings) (peer : Peer) :
    let c := course start s peer
    let o := c.outcome s.trader
    (o.sent = 0 ∧ o.skipped = 0 ∧ ∀ ok, c.result = .ok ok → c.connection = none) ∨
      ∃ l tally l', Trading.perform s l = (none, tally, l') ∧ o.sent = tally.sent ∧
        o.skipped = tally.skipped ∧ c.cycles = tally.cycles.reverse := by
  intro c o
  cases hresult : c.result with
  | error fault =>
    refine .inl ⟨?_, ?_, nofun⟩
    all_goals simp only [o, Course.outcome, hresult, Outcome.untraded]
  | ok ok =>
    have ho : o = ok := by simp only [o, Course.outcome, hresult]
    obtain ⟨fault, -, hcourse⟩ | ⟨deadline, -, ⟨time, failure, -, hcourse⟩ |
      ⟨time, text, -, hcourse⟩ | ⟨l, -, hcourse⟩⟩ := course_cases start s peer
    · cases (congrArg Course.result hcourse).symm.trans hresult
    · have hfailed := (congrArg Course.result hcourse).symm.trans hresult
      simp only [unconnected, Outcome.failed] at hfailed
      split at hfailed
      · obtain rfl := Except.ok.inj hfailed
        rw [ho]
        exact .inl ⟨rfl, rfl, fun _ _ => congrArg Course.connection hcourse⟩
      · cases hfailed
    · cases (congrArg Course.result hcourse).symm.trans hresult
    · have hconnected := (congrArg Course.result hcourse).symm.trans hresult
      obtain ⟨_, registration, l₁, tally, l₂, _, -, -, htrading, rfl, -, -, hcycles⟩ :=
        connected_of_ok hconnected
      rw [ho]
      exact .inr ⟨l₁, tally, l₂, htrading, rfl, rfl,
        (congrArg Course.cycles hcourse).trans hcycles⟩

/-! ### Windows of a ticker that keeps the interval -/

namespace SessionSettings

variable {s : SessionSettings}

theorem toNat_maxCycles (s : SessionSettings) : s.maxCycles.toNat =
    min (s.duration.nanos / s.interval.nanos + 1) (UInt64.size - 1) := by
  unfold maxCycles
  split
  · rename_i hzero
    rw [hzero, Nat.div_zero]
    rfl
  · exact UInt64.toNat_ofNat_of_lt' (Nat.lt_of_le_of_lt (Nat.min_le_right ..) (by decide))

/-- The ticker keeps the interval of a session: a slot that is served in time is followed by the one
an interval later. An interval past the longest pause is not kept. -/
def KeepsInterval (s : SessionSettings) : Prop :=
  ∀ slot time, time ≤ slot + Trading.tolerance →
    Trading.nextSlot (Clock.pause s.interval) slot time = slot + s.interval.nanos

theorem keepsInterval_iff : s.KeepsInterval ↔ Clock.pause s.interval = s.interval.nanos := by
  have hnext {slot time : Nat} (h : time ≤ slot + Trading.tolerance) :
      Trading.nextSlot (Clock.pause s.interval) slot time = slot + Clock.pause s.interval := if_pos h
  constructor
  · intro h
    have hfirst := h 0 0 (Nat.zero_le _)
    rwa [hnext (Nat.zero_le _), Nat.zero_add, Nat.zero_add] at hfirst
  · intro h slot time htime
    rw [hnext htime, h]

instance : Decidable s.KeepsInterval := decidable_of_iff' _ keepsInterval_iff

end SessionSettings

namespace Trading

/-- Some cycles fill a window: they serve growing multiples of the interval, the first one at its
opening, each no earlier than its slot and no later than the window, and there are no more of them
than fit. -/
structure FillsWindow (s : SessionSettings) (opened : Nat) (cycles : List Cycle) : Prop where
  ordered : cycles.Pairwise fun c c' => c.slot < c'.slot
  grid : ∀ c ∈ cycles, s.interval.nanos ∣ c.slot ∧ c.slot ≤ s.duration.nanos
  timely : ∀ c ∈ cycles, Clock.nanos opened + c.slot ≤ Clock.nanos c.start ∧
    Clock.nanos c.start ≤ Clock.nanos opened + s.duration.nanos
  first : ∃ c later, cycles = c :: later ∧ c.slot = 0 ∧ c.start = opened
  only : s.interval.nanos = 0 → cycles.length = 1
  length_le : cycles.length ≤ s.duration.nanos / s.interval.nanos + 1

theorem fillsWindow_perform {s : SessionSettings} {l : Link} (hticks : s.KeepsInterval)
    (hreach : Clock.reaches (Clock.nanos l.now) s.duration = true) :
    FillsWindow s l.now (perform s l).2.1.cycles.reverse := by
  have hperiod := SessionSettings.keepsInterval_iff.1 hticks
  have hlength := length_cycles_perform_le s l
  rw [perform_of_reaches hreach] at hlength ⊢
  have hledger : Ledger s l.now (serveFrom s l.now 0 s.flow .empty l).2.1 :=
    (Ledger.Before.start s l.now).serveFrom (Nat.le_refl _)
  obtain ⟨c, later, hcycles, hslot, hstart, honly⟩ := serveFrom_start s s.flow l
  rw [hperiod] at hlength
  refine
    { ordered := List.pairwise_reverse.2 hledger.ordered, grid := ?_, timely := ?_, first := ?_,
      only := ?_, length_le := Nat.le_trans (Nat.le_of_eq List.length_reverse) hlength }
  · intro c hc
    have hmem := List.mem_reverse.1 hc
    exact ⟨hperiod ▸ hledger.grid c hmem, hledger.window c hmem⟩
  · intro c hc
    exact hledger.timely c (List.mem_reverse.1 hc)
  · refine ⟨c, later.reverse, ?_, hslot, hstart⟩
    rw [hcycles, List.reverse_append]
    rfl
  · intro hzero
    rw [hcycles, honly (hperiod.trans hzero)]
    rfl

/-- Where the ticker keeps the interval, the cycles of every window that the clock reaches fill it.
Whatever its server does, a session reports no more orders, sent and skipped, than its window has
slots, nor, as far as 64 bits count them, than it announces. A connected session whose worker does
not break reports all of its cycles, and there is one. -/
theorem cycles_fill_window (s : SessionSettings) (hticks : s.KeepsInterval) :
    (∀ l : Link, Clock.reaches (Clock.nanos l.now) s.duration = true →
      FillsWindow s l.now (perform s l).2.1.cycles.reverse) ∧
    ∀ (start : Nat) (peer : Peer),
      let c := Session.course start s peer
      let o := c.outcome s.trader
      (c.cycles = [] ∨ ∃ l, c.cycles = (perform s l).2.1.cycles.reverse) ∧
      o.sent.toNat + o.skipped.toNat ≤ s.duration.nanos / s.interval.nanos + 1 ∧
      min (o.sent.toNat + o.skipped.toNat) (UInt64.size - 1) ≤ s.maxCycles.toNat ∧
      ∀ conn ok, c.connection = some conn → c.result = .ok ok →
        o.sent.toNat + o.skipped.toNat = c.cycles.length ∧
          1 ≤ o.sent.toNat + o.skipped.toNat := by
  refine ⟨fun l => fillsWindow_perform hticks, fun start peer => ?_⟩
  intro c o
  refine ⟨Session.exists_window start s peer, ?_⟩
  rw [SessionSettings.toNat_maxCycles]
  obtain ⟨hsent, hskipped, hnone⟩ | ⟨l, tally, l', htrading, hsent, hskipped, hcycles⟩ :=
    Session.outcome_cases start s peer
  · rw [show o.sent = 0 from hsent, show o.skipped = 0 from hskipped]
    refine ⟨Nat.zero_le _, Nat.zero_le _, fun conn ok hconn hok => ?_⟩
    cases hconn.symm.trans (hnone ok hok)
  · obtain ⟨hcounts, hone⟩ := counts_of_perform_eq_none (congrArg Prod.fst htrading)
    have hfits := length_cycles_perform_le s l
    rw [SessionSettings.keepsInterval_iff.1 hticks] at hfits
    rw [htrading] at hcounts hone hfits
    dsimp only at hcounts hone hfits
    rw [show o.sent = tally.sent from hsent, show o.skipped = tally.skipped from hskipped,
      show c.cycles = tally.cycles.reverse from hcycles, List.length_reverse, hcounts]
    exact ⟨hfits, by omega, fun _ _ _ _ => ⟨rfl, hone⟩⟩

/-- The settings of a session that trades one symbol. -/
private def trading (seed : UInt64) (price : Decimal) (duration interval : Span) :
    SessionSettings :=
  { SessionSettings.standard ⟨"a"⟩ ⟨"mock", 8888⟩ ⟨[⟨⟨"X"⟩, ⟨price⟩⟩]⟩ with
    duration, interval, seed := some seed }

/-- A silent server makes every order wait for a tenth of a second. The second slot of thirty
milliseconds is then served late, and those missed meanwhile are not made up for. -/
theorem cycles_fill_window_silent :
    let s := trading 0 ⟨false, 100, 0, by decide, by decide⟩ (.ofMillis 250) (.ofMillis 30)
    let l := (Registration.perform s.trader 1000 ⟨0, .opening .quiet 0⟩).2
    let c := Session.course 0 s .quiet
    s.KeepsInterval ∧ c.cycles.map (·.slot) = [0, 30000000, 120000000] ∧
      FillsWindow s l.now c.cycles ∧
      (c.outcome s.trader).sent.toNat + (c.outcome s.trader).skipped.toNat = 3 := by
  intro s l c
  have hticks : s.KeepsInterval := by decide +kernel
  obtain ⟨hwindow, hreports⟩ := cycles_fill_window s hticks
  obtain ⟨hreach, hcycles⟩ : Clock.reaches (Clock.nanos l.now) s.duration = true ∧
      c.cycles = (perform s l).2.1.cycles.reverse := by
    decide +kernel
  obtain ⟨hslots, hconn, hok⟩ : c.cycles.map (·.slot) = [0, 30000000, 120000000] ∧
      c.connection.isSome = true ∧ c.result.isOk = true := by
    decide +kernel
  refine ⟨hticks, hslots, hcycles ▸ hwindow l hreach, ?_⟩
  obtain ⟨conn, hconn⟩ := Option.isSome_iff_exists.1 hconn
  cases hresult : c.result with
  | error fault =>
    rw [hresult] at hok
    cases hok
  | ok ok =>
    obtain ⟨-, -, -, hcounted⟩ := hreports 0 .quiet
    have hlength := congrArg List.length hslots
    rw [List.length_map] at hlength
    exact (hcounted conn ok hconn hresult).1.trans hlength

/-! ### A window of more slots than can be counted -/

/-- The settings of a session whose window has as many slots as a counter of 64 bits has values. -/
private def overlong : SessionSettings :=
  { SessionSettings.standard ⟨"a"⟩ ⟨"mock", 8888⟩ .standard with
    duration := .ofMillis (6 * (UInt64.size - 1)), interval := .ofMillis 6, seed := some 42 }

/-- A server that acknowledges everything at once, but takes nothing after its first millisecond. -/
private def brief : Peer :=
  { Peer.quiet with
    fallback := .habit .acknowledge 0
    windows := [⟨1, none, .error "broken pipe"⟩] }

theorem overlong_flow (count : Nat) : (overlong.flow.take count).2 = none := by
  rw [Option.eq_none_iff_forall_ne_some]
  intro fault hfault
  have hprices : ∀ listing ∈ overlong.flow.catalog.listings, ¬ listing.basePrice.Overflows
      (Price.wholeBps + overlong.flow.shape.maxJitter.toInt.natAbs) := by
    decide +kernel
  obtain ⟨-, listing, hlisting, hover⟩ := OrderFlow.overflows_of_take (by decide +kernel) hfault
  exact hprices listing hlisting hover

/-- The order of the first slot is sent, and those of all other slots are skipped. -/
theorem perform_overlong :
    let l := (Registration.perform overlong.trader 1000 ⟨0, .opening brief 0⟩).2
    ∃ tally l', perform overlong l = (none, tally, l') ∧ tally.sent.toNat = 1 ∧
      tally.skipped.toNat = UInt64.size - 1 ∧ l'.now = 6 * (UInt64.size - 1) := by
  intro l
  obtain ⟨hnow, hfirst⟩ : l.now = 0 ∧
      ((cycle overlong 0 overlong.flow l).1.fault = none ∧
        (cycle overlong 0 overlong.flow l).1.sent = true ∧
        ((Tally.empty.log (cycle overlong 0 overlong.flow l).1).count
          (cycle overlong 0 overlong.flow l).1).isOk = true) ∧
      (cycle overlong 0 overlong.flow l).2.2.now = 0 ∧
      (cycle overlong 0 overlong.flow l).2.2.connection.opened = 0 ∧
      (cycle overlong 0 overlong.flow l).2.2.connection.peer = brief := by
    decide +kernel
  rcases hcycle : cycle overlong 0 overlong.flow l with ⟨c, flow', l'⟩
  rw [hcycle] at hfirst
  dsimp only at hfirst
  obtain ⟨⟨hfault, hsent, hcounted⟩, hnow', hopened, hpeer⟩ := hfirst
  cases hcount : (Tally.empty.log c).count c with
  | error fault =>
    rw [hcount] at hcounted
    cases hcounted
  | ok tally =>
    have hfaithful := Tally.Faithful.empty.count hcount
    have hcycles : tally.cycles = [c] := Tally.cycles_of_count hcount
    have hone : tally.sent.toNat = 1 := by
      rw [hfaithful.sent, hcycles, List.countP_singleton, if_pos hsent]
    have hzero : tally.skipped.toNat = 0 := by
      rw [hfaithful.skipped, hcycles, List.countP_singleton, hsent]
      rfl
    have hrefuses : l'.connection.RefusesFrom 1 := by
      have hwindows := congrArg Peer.windows hpeer
      have hrefuses := Connection.refusesFrom_of_window hwindows
      rwa [hopened] at hrefuses
    have hstep : overlong.interval.nanos = Clock.nanos 6 := by decide +kernel
    obtain ⟨skipped, cycles, hperform, hskipped⟩ := perform_of_refused (n := UInt64.size - 2)
      (by decide +kernel) hstep (by decide)
      (by rw [hnow]; decide +kernel) (by rw [hnow]; decide +kernel) overlong_flow hcycle hfault
      hcount (by rw [hnow']; exact Nat.zero_le _)
      (hrefuses.mono (by rw [hnow]; decide)) (by decide +kernel) (by decide +kernel)
      (by rw [hzero]; decide)
    refine ⟨_, _, hperform, hone, ?_, ?_⟩
    · rw [hskipped, hzero]
      rfl
    · rw [hnow]
      rfl

theorem course_overlong : ∃ o, (Session.course 0 overlong brief).result = .ok o ∧
    o.sent.toNat = 1 ∧ o.skipped.toNat = UInt64.size - 1 := by
  obtain ⟨tally, l', hperform, hsent, hskipped, hnow⟩ := perform_overlong
  have hcourse : Session.course 0 overlong brief =
      Session.connected 0 overlong ⟨0, .opening brief 0⟩ := rfl
  have hack : Clock.deadline 0 overlong.timeouts.registerAck = .ok 1000 := by decide +kernel
  have hend : Clock.deadline l'.now overlong.timeouts.send =
      .ok (l'.now + overlong.timeouts.send.millisUp) := by
    rw [hnow]
    decide +kernel
  obtain ⟨fault, hfault, -⟩ | ⟨deadline, registration, l₁, broke, tally₁, l₂, hdeadline,
    hregistration, htrading, hrest⟩ :=
    Session.connected_cases 0 overlong ⟨0, .opening brief 0⟩
  · cases hack.symm.trans hfault
  cases hack.symm.trans hdeadline
  rw [hregistration] at hperform
  cases hperform.symm.trans htrading
  obtain ⟨fault, hbroke | ⟨-, hfault⟩, -⟩ | ⟨-, deadline', -, hconnected⟩ := hrest
  · cases hbroke
  · cases hend.symm.trans hfault
  · exact ⟨_, congrArg Course.result (hcourse.trans hconnected), hsent, hskipped⟩

/-- A worker that breaks in its second cycle reports nothing, although its window has room for four
and the first order was sent. A session whose window has more slots than 64 bits count reports more
orders, sent and skipped, than it announces. -/
theorem counts_leave_bounds :
    (let s := trading 3 ⟨false, 78000000000000000000000000000, 0, by decide, by decide⟩
      (.ofMillis 3000) (.ofMillis 1000)
    let l := (Registration.perform s.trader 1000 ⟨0, .opening .quiet 0⟩).2
    let c := Session.course 0 s .quiet
    s.KeepsInterval ∧ 0 < s.interval.nanos ∧
      Clock.reaches (Clock.nanos l.now + s.duration.nanos) s.interval = true ∧
      c.cycles = (perform s l).2.1.cycles.reverse ∧
      c.cycles.map (fun cycle => (cycle.slot, cycle.sent)) = [(0, true), (1000000000, false)] ∧
      (c.outcome s.trader).sent.toNat + (c.outcome s.trader).skipped.toNat = 0) ∧
    ∃ o, (Session.course 0 overlong brief).result = .ok o ∧
      overlong.KeepsInterval ∧ 0 < overlong.interval.nanos ∧
      Clock.reaches (Clock.nanos 0 + overlong.duration.nanos) overlong.interval = true ∧
      o.sent.toNat + o.skipped.toNat = overlong.duration.nanos / overlong.interval.nanos + 1 ∧
      overlong.maxCycles.toNat < o.sent.toNat + o.skipped.toNat := by
  refine ⟨by decide +kernel, ?_⟩
  obtain ⟨o, hresult, hsent, hskipped⟩ := course_overlong
  obtain ⟨hticks, hpos, hreach, hslots, hannounced⟩ : overlong.KeepsInterval ∧
      0 < overlong.interval.nanos ∧
      Clock.reaches (Clock.nanos 0 + overlong.duration.nanos) overlong.interval = true ∧
      overlong.duration.nanos / overlong.interval.nanos + 1 = UInt64.size ∧
      overlong.maxCycles.toNat = UInt64.size - 1 := by
    decide +kernel
  refine ⟨o, hresult, hticks, hpos, hreach, ?_, ?_⟩
  · rw [hslots, hsent, hskipped]
    rfl
  · rw [hannounced, hsent, hskipped]
    decide

end Trading

end MarketLoad
