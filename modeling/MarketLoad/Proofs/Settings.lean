import MarketLoad.Proofs.Identity
import MarketLoad.Proofs.OrderFlow
import MarketLoad.Proofs.Session.SlotTime
import MarketLoad.Settings.File

/-!
# Sessions of validated settings

Settings that pass validation make a session for each trader (`Settings.sessions_of_valid`). Their
orders can be drawn, unless a price is near the greatest decimal, and their workers run to the end
within the limits of the clock, of the counters and of the prices
(`Settings.validated_sessions_end`). Validation does not look at these limits
(`Settings.validated_session_breaks`).
-/

namespace MarketLoad

open Venue

theorem mapM_eq_ok_map {α β ε : Type} {f : α → Except ε β} {g : α → β} {as : List α}
    (h : ∀ a ∈ as, f a = .ok (g a)) : as.mapM f = .ok (as.map g) := by
  induction as with
  | nil => rfl
  | cons a as ih =>
    rw [List.mapM_cons, h a List.mem_cons_self, ih fun b hb => h b (List.mem_cons_of_mem a hb)]
    rfl

namespace Settings

/-! ### Validation -/

/-- What validation establishes. -/
structure Valid (s : Settings) : Prop where
  host : s.endpoint.host.isEmpty = false
  interval : s.interval.nanos ≠ 0
  limit : s.limit ≠ 0
  catalog : s.catalog.isEmpty = false
  quantity : s.shape.minQuantity ≠ 0 ∧ s.shape.minQuantity ≤ s.shape.maxQuantity
  jitter : 0 ≤ s.shape.maxJitter ∧ s.shape.maxJitter < 10000
  /-- The first trader has a valid name, if there is one. -/
  stem : 0 < s.traders → isWireSafe (s.traderName 1) = true

private theorem ite_some_eq_none_iff {p : Prop} [Decidable p] {α : Type} {a : α} {rest : Option α} :
    (if p then some a else rest) = none ↔ ¬ p ∧ rest = none := by
  split
  · exact iff_of_false nofun fun h => h.1 ‹_›
  · exact ⟨fun h => ⟨‹_›, h⟩, And.right⟩

theorem validate_eq_ok_iff (s : Settings) : s.validate = .ok () ↔ s.Valid := by
  have hfault : s.validate = .ok () ↔ s.fault? = none := by
    unfold validate
    cases s.fault? with
    | none => exact iff_of_true rfl rfl
    | some setting => exact iff_of_false nofun nofun
  rw [hfault]
  unfold fault?
  simp only [ite_some_eq_none_iff, not_or, not_and, Trader.isNone_ofName?, Bool.not_eq_false,
    Bool.not_eq_true]
  rw [UInt32.not_lt, Int64.not_lt, Int64.not_le]
  constructor
  · rintro ⟨hhost, hinterval, hlimit, hcatalog, hquantity, hjitter, hstem, -⟩
    exact ⟨hhost, hinterval, hlimit, hcatalog, hquantity, hjitter, hstem⟩
  · rintro ⟨hhost, hinterval, hlimit, hcatalog, hquantity, hjitter, hstem⟩
    exact ⟨hhost, hinterval, hlimit, hcatalog, hquantity, hjitter, hstem, trivial⟩

theorem Valid.natAbs_jitter_lt {s : Settings} (h : s.Valid) :
    s.shape.maxJitter.toInt.natAbs < Price.wholeBps := by
  have hlow : 0 ≤ s.shape.maxJitter.toInt := Int64.le_iff_toInt_le.1 h.jitter.1
  have hhigh : s.shape.maxJitter.toInt < Price.wholeBps := Int64.lt_iff_toInt_lt.1 h.jitter.2
  omega

/-! ### The sessions -/

/-- The session of the trader of a number, whose name is not looked at. -/
def sessionOf (s : Settings) (index : Nat) : SessionSettings :=
  { trader := ⟨s.traderName index⟩, endpoint := s.endpoint, duration := s.duration,
    interval := s.interval, catalog := s.catalog, shape := s.shape, timeouts := s.timeouts,
    seed := s.seed.map (· + UInt64.ofNat index) }

/-- Validation looks at the first name only, and only if there is one. -/
theorem Valid.isWireSafe_traderName {s : Settings} (h : s.Valid) {index : Nat}
    (hindex : index ∈ List.range' 1 s.traders.toNat) : isWireSafe (s.traderName index) = true := by
  have hsome : 0 < s.traders := by
    have hrange := List.mem_range'_1.1 hindex
    have hzero : (0 : UInt64).toNat = 0 := rfl
    rw [UInt64.lt_iff_toNat_lt]
    omega
  have hfirst := h.stem hsome
  unfold traderName at hfirst ⊢
  rwa [isWireSafe_append_digits] at hfirst ⊢

/-- Valid settings make a session for each number of a trader. -/
theorem sessions_of_valid {s : Settings} (h : s.Valid) :
    s.sessions = .ok ((List.range' 1 s.traders.toNat).map s.sessionOf) := by
  have hsession : ∀ index ∈ List.range' 1 s.traders.toNat,
      s.session index = .ok (s.sessionOf index) := by
    intro index hindex
    rw [session, Trader.ofName?, if_pos (h.isWireSafe_traderName hindex)]
    rfl
  rw [sessions, (validate_eq_ok_iff s).2 h]
  exact mapM_eq_ok_map hsession

/-- A draw of a session of valid settings fails only where a price is past every decimal once it is
moved. -/
theorem overflows_of_take_sessionOf {s : Settings} (h : s.Valid) {index count : Nat} {fault : Fault}
    (hfault : ((s.sessionOf index).flow.take count).2 = some fault) :
    fault = .productOverflow ∧ ∃ listing ∈ s.catalog.listings,
      listing.basePrice.Overflows (Price.wholeBps + s.shape.maxJitter.toInt.natAbs) := by
  have hcatalog : (s.sessionOf index).flow.catalog = s.catalog := rfl
  have hshape : (s.sessionOf index).flow.shape = s.shape := rfl
  rw [← hcatalog, ← hshape]
  exact OrderFlow.overflows_of_take (Nat.le_of_lt h.natAbs_jitter_lt) hfault

end Settings

/-! ### The workers -/

/-- A connector that does not break down, and fails with nothing but failures to connect. -/
structure Venue.Peer.KeepsContract (peer : Peer) : Prop where
  crash (text : Option String) : peer.reception ≠ .crash text
  fail (failure : SessionFailure) : peer.reception = .fail failure →
    ∃ endpoint reason, failure = .connect endpoint reason

/-- A session that is over, its spans added once more, before the end of the clock, whose cycles can
be counted and whose prices can be moved. -/
structure SessionSettings.WithinLimits (s : SessionSettings) (start : Nat) : Prop where
  clock : Clock.nanos (start + s.slotTime) + s.reach < Clock.horizon
  cycles : s.duration.nanos / Clock.pause s.interval + 1 < UInt64.size
  prices : ∀ listing ∈ s.catalog.listings,
    ¬ listing.basePrice.Overflows (Price.wholeBps + s.shape.maxJitter.toInt.natAbs)

namespace Session

variable {s : SessionSettings} {start : Nat} {peer : Peer} {fault : Fault}

/-- Within its limits nothing breaks the worker of a session but a draw of its flow. -/
theorem Breaks.exists_take (h : Breaks s peer (course start s peer).finish fault)
    (hlimits : s.WithinLimits start) (hpeer : peer.KeepsContract) :
    ∃ count, (s.flow.take count).2 = some fault := by
  cases h with
  | clock hover =>
    have hfinish : Clock.nanos (course start s peer).finish ≤ Clock.nanos (start + s.slotTime) :=
      Nat.mul_le_mul_left _ (waits_course start s peer).within
    have hclock := hlimits.clock
    omega
  | flow count hcount => exact ⟨count, hcount⟩
  | counter hsize => exact absurd hlimits.cycles (Nat.not_lt.2 hsize)
  | connector hfail hfatal =>
    obtain ⟨endpoint, reason, rfl⟩ := hpeer.fail _ hfail
    cases hfatal
  | crash hcrash => exact absurd hcrash (hpeer.crash _)

/-- Within its limits a session whose orders can be drawn runs to the end. -/
theorem ends_of_withinLimits (hflow : ∀ count, (s.flow.take count).2 = none)
    (hlimits : s.WithinLimits start) (hpeer : peer.KeepsContract) :
    (course start s peer).result = .ok ((course start s peer).outcome s.trader) ∧
      ∀ reason, ((course start s peer).outcome s.trader).failure ≠ some (.worker reason) := by
  cases hresult : (course start s peer).result with
  | error fault =>
    obtain ⟨count, hcount⟩ := (breaks_of_course hresult).exists_take hlimits hpeer
    rw [hflow] at hcount
    cases hcount
  | ok o =>
    have houtcome : (course start s peer).outcome s.trader = o := by rw [Course.outcome, hresult]
    rw [houtcome]
    refine ⟨rfl, fun reason hfailure => ?_⟩
    obtain ⟨endpoint, cause, hconnect⟩ := hpeer.fail _ (reception_of_worker hresult hfailure)
    cases hconnect

end Session

namespace Settings

/-- The sessions of settings that pass validation, one for each trader. What breaks a worker of
theirs is the end of the clock, a price that is past every decimal once it is moved, a counter that
is full, or a connector that does not keep its contract. Within the limits that these name, every
worker runs to the end, and its outcome is not a worker's failure. -/
theorem validated_sessions_end (s : Settings) (h : s.validate = .ok ()) :
    ∃ sessions, s.sessions = .ok sessions ∧ sessions.length = s.traders.toNat ∧
      ∀ session ∈ sessions,
        (∀ count fault, (session.flow.take count).2 = some fault → fault = .productOverflow ∧
          ∃ listing ∈ s.catalog.listings,
            listing.basePrice.Overflows (Price.wholeBps + s.shape.maxJitter.toInt.natAbs)) ∧
        ∀ start peer, let c := Session.course start session peer
          (∀ fault, c.result = .error fault → Session.Breaks session peer c.finish fault) ∧
          (session.WithinLimits start → peer.KeepsContract →
            c.result = .ok (c.outcome session.trader) ∧
              ∀ reason, (c.outcome session.trader).failure ≠ some (.worker reason)) := by
  have hvalid := (validate_eq_ok_iff s).1 h
  refine ⟨_, sessions_of_valid hvalid, ?_, ?_⟩
  · rw [List.length_map, List.length_range']
  · intro session hsession
    obtain ⟨index, -, rfl⟩ := List.mem_map.1 hsession
    refine ⟨fun _ _ => overflows_of_take_sessionOf hvalid, fun start peer => ?_⟩
    refine ⟨fun _ => Session.breaks_of_course, fun hlimits hpeer => ?_⟩
    refine Session.ends_of_withinLimits (fun count => ?_) hlimits hpeer
    rw [Option.eq_none_iff_forall_ne_some]
    intro fault hfault
    obtain ⟨-, listing, hlisting, hover⟩ := overflows_of_take_sessionOf hvalid hfault
    exact hlimits.prices listing hlisting hover

/-- Two traders with a window of three seconds that take their slots after five seconds. -/
theorem validated_sessions_end_two :
    let s : Settings := { standard with traders := 2, duration := .ofMillis 3000, seed := some 7 }
    let sessions := [s.sessionOf 1, s.sessionOf 2]
    s.validate = .ok () ∧ s.sessions = .ok sessions ∧
      (∀ session ∈ sessions, session.WithinLimits 5000) ∧ Peer.quiet.KeepsContract ∧
      ∀ session ∈ sessions, ∃ o, (Session.course 5000 session .quiet).result = .ok o ∧
        o.sent = 2 ∧ ∀ reason, o.failure ≠ some (.worker reason) := by
  intro s sessions
  have hvalid : s.validate = .ok () := by decide +kernel
  have hsessions : s.sessions = .ok sessions := by decide +kernel
  have hlimits : ∀ session ∈ sessions, session.WithinLimits 5000 := by
    intro session hsession
    simp only [sessions, List.mem_cons, List.not_mem_nil, or_false] at hsession
    rcases hsession with rfl | rfl
    all_goals
      constructor
      all_goals decide +kernel
  have hpeer : Peer.quiet.KeepsContract := ⟨nofun, nofun⟩
  have hsent : ∀ session ∈ sessions,
      ((Session.course 5000 session .quiet).outcome session.trader).sent = 2 := by
    decide +kernel
  refine ⟨hvalid, hsessions, hlimits, hpeer, fun session hsession => ?_⟩
  obtain ⟨_, h, -, hends⟩ := validated_sessions_end s hvalid
  cases hsessions.symm.trans h
  obtain ⟨hresult, hfailure⟩ := ((hends session hsession).2 5000 .quiet).2
    (hlimits session hsession) hpeer
  exact ⟨_, hresult, hsent session hsession, hfailure⟩

/-- Settings that pass validation with an interval that reaches past the end of the clock. The one
order of the session gets across and is answered, and then its worker breaks. -/
theorem validated_session_breaks :
    let peer := { Peer.quiet with delay := some 1, fallback := .habit .acknowledge 0 }
    ∃ s session, ofText ("[general]\ntraders = 1\nseed = 7\n" ++
        "[session]\nduration_secs = 4\ninterval_secs = 1.8e19\n") = .ok s ∧
      s.validate = .ok () ∧ s.sessions = .ok [session] ∧
      (Session.course 0 session peer).cycles.map (·.roundTrip) = [some 0] ∧
      (Session.course 0 session peer).result = .error .clockOverflow := by
  intro peer
  let s : Settings :=
    { standard with
      traders := 1, duration := .ofMillis 4000, seed := some 7
      interval := ⟨18000000000000000000 * Nanos.perSecond, by decide⟩ }
  refine ⟨s, s.sessionOf 1, ?_, ?_, ?_, ?_, ?_⟩
  all_goals decide +kernel

end Settings

end MarketLoad
