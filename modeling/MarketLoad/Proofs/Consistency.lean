import MarketLoad.Proofs.Latency
import MarketLoad.Proofs.Run.Perform
import MarketLoad.Proofs.Session.Window

/-!
# The parts of an outcome agree

Whatever a session meets, its outcome is one of two kinds (`Outcome.Consistent`): it has traded, and
then it has served at least one slot and failed at most to register; or it has not, and then its
failure is a fatal one and it counts nothing. It never has more round trips than orders sent
(`Tally.Measured`). The outcomes of a run, those made up for lost tasks included, are of these
kinds.
-/

namespace MarketLoad

open Venue

/-- The parts of an outcome agree with each other. -/
structure Outcome.Consistent (o : Outcome) : Prop where
  /-- A session has not traded exactly if its failure is a fatal one. -/
  success_eq_false_iff : o.success = false ↔
    ∃ failure, o.failure = some failure ∧ failure.isFatal = true
  /-- A session that has not traded counts nothing. -/
  untraded : o.success = false →
    o.sent = 0 ∧ o.skipped = 0 ∧ o.latency.total = .ok 0 ∧ o.registered = false
  /-- A session that has traded served a slot, and failed at most to register. -/
  traded : o.success = true →
    1 ≤ o.sent.toNat + o.skipped.toNat ∧ (o.failure = none ↔ o.registered = true) ∧
      ∀ failure, o.failure = some failure → ∃ cause, failure = .registration cause
  /-- There are no more round trips than orders sent. -/
  measured : ∃ total, o.latency.total = .ok total ∧ total ≤ o.sent

theorem Outcome.consistent_untraded (trader : Trader) (elapsed : Span) {failure : SessionFailure}
    (h : failure.isFatal = true) : (untraded trader elapsed failure).Consistent where
  success_eq_false_iff := ⟨fun _ => ⟨failure, rfl, h⟩, fun _ => rfl⟩
  untraded _ := ⟨rfl, rfl, rfl, rfl⟩
  traded := nofun
  measured := ⟨0, rfl, UInt64.le_refl _⟩

/-! ### Sessions that have traded -/

/-- A tally holds no more round trips than orders sent. -/
def Tally.Measured (y : Tally) : Prop := Histogram.mass y.latency.buckets ≤ y.sent.toNat

theorem Tally.Measured.empty : Measured .empty := by
  unfold Measured
  decide

/-- Only an order that is sent brings a round trip. -/
theorem Tally.Measured.count {y y' : Tally} {c : Cycle} (h : y.Measured)
    (hc : (y.log c).count c = .ok y') : y'.Measured := by
  have hone : (1 : UInt64).toNat = 1 := rfl
  unfold Tally.count at hc
  split at hc
  · obtain ⟨sent, hadd, hc⟩ := bind_eq_ok.1 hc
    have hsent : sent.toNat = y.sent.toNat + 1 := toNat_of_addCounters hadd
    split at hc
    · cases hc
      unfold Measured at h ⊢
      dsimp only [Tally.log]
      omega
    · obtain ⟨latency, hrecord, hc⟩ := bind_eq_ok.1 hc
      have hmass : Histogram.mass latency.buckets ≤ Histogram.mass y.latency.buckets + 1 :=
        Histogram.mass_le_of_record hrecord
      cases hc
      unfold Measured at h ⊢
      dsimp only
      omega
  · obtain ⟨skipped, -, hc⟩ := bind_eq_ok.1 hc
    cases hc
    exact h

theorem Tally.Measured.exists_total {y : Tally} (h : y.Measured) :
    ∃ total, y.latency.total = .ok total ∧ total ≤ y.sent := by
  have hfits := Nat.lt_of_le_of_lt h y.sent.toNat_lt_size
  obtain ⟨total, htotal, hmass⟩ := Histogram.total_eq_mass hfits
  refine ⟨total, htotal, UInt64.le_iff_toNat_le.2 ?_⟩
  rw [hmass]
  exact h

namespace Trading

/-- An unbroken worker has served a slot and measured no more round trips than it sent orders. -/
theorem of_perform_eq_none {s : SessionSettings} {l : Link} (h : (perform s l).1 = none) :
    1 ≤ (perform s l).2.1.sent.toNat + (perform s l).2.1.skipped.toNat ∧
      (perform s l).2.1.Measured := by
  obtain ⟨hcounts, hone⟩ := counts_of_perform_eq_none h
  refine ⟨hcounts ▸ hone, ?_⟩
  have hperform := perform_of_eq_none h
  rw [hperform] at h ⊢
  exact serveFrom_keeps (fun _ _ _ hy _ => hy.count) _ _ _ _ _ .empty h

end Trading

namespace Session

theorem consistent_traded (s : SessionSettings) (registration : Except RegistrationFailure Unit)
    (elapsed : Span) {tally : Tally} (hserved : 1 ≤ tally.sent.toNat + tally.skipped.toNat)
    (hmeasured : tally.Measured) : (traded s registration tally elapsed).Consistent := by
  refine ⟨⟨nofun, ?_⟩, nofun, fun _ => ⟨hserved, Option.isNone_iff_eq_none.symm, ?_⟩,
    hmeasured.exists_total⟩
  · rintro ⟨failure, hfailure, hfatal⟩
    cases registration with
    | ok => cases hfailure
    | error cause =>
      cases hfailure
      cases hfatal
  · intro failure hfailure
    cases registration with
    | ok => cases hfailure
    | error cause =>
      cases hfailure
      exact ⟨cause, rfl⟩

theorem consistent_connected {start : Nat} {s : SessionSettings} {l : Link} {o : Outcome}
    (h : (connected start s l).result = .ok o) : o.Consistent := by
  obtain ⟨_, registration, l₁, tally, l₂, _, -, -, htrading, rfl, -⟩ := connected_of_ok h
  obtain ⟨hserved, hmeasured⟩ := Trading.of_perform_eq_none (congrArg Prod.fst htrading)
  rw [htrading] at hserved hmeasured
  exact consistent_traded s registration _ hserved hmeasured

theorem consistent_course {start : Nat} {s : SessionSettings} {peer : Peer} {o : Outcome}
    (h : (course start s peer).result = .ok o) : o.Consistent := by
  obtain ⟨fault, -, hcourse⟩ | ⟨deadline, -, ⟨time, failure, -, hcourse⟩ |
    ⟨time, text, -, hcourse⟩ | ⟨l, -, hcourse⟩⟩ := course_cases start s peer
  · rw [hcourse] at h; cases h
  · rw [hcourse] at h
    simp only [unconnected, Outcome.failed] at h
    split at h
    · rename_i hfatal
      cases h
      exact Outcome.consistent_untraded _ _ hfatal
    · cases h
  · rw [hcourse] at h; cases h
  · rw [hcourse] at h
    exact consistent_connected h

end Session

/-! ### Runs -/

/-- A session whose worker breaks down delivers a consistent outcome all the same. -/
theorem Visit.consistent_outcome (start : Nat) (e : Entrant) :
    (ofEntrant start e).outcome.Consistent := by
  unfold outcome Course.outcome
  split
  · rename_i o ho
    exact Session.consistent_course ho
  · exact Outcome.consistent_untraded _ _ rfl

/-- What a task of a run can send: what its session delivers, taking its slot at some time, or a
worker failure if it got no slot. -/
inductive Run.Sends (entrants : List Entrant) : Outcome → Prop
  | visit (start : Nat) {e : Entrant} : e ∈ entrants →
    Sends entrants (Visit.ofEntrant start e).outcome
  | noSlot (elapsed : Span) (reason : String) {e : Entrant} : e ∈ entrants →
    Sends entrants (.untraded e.settings.trader elapsed (.worker reason))

theorem Run.Sends.consistent {entrants : List Entrant} {o : Outcome} (h : Sends entrants o) :
    o.Consistent := by
  cases h with
  | visit start _ => exact Visit.consistent_outcome ..
  | noSlot elapsed reason _ => exact Outcome.consistent_untraded _ _ rfl

theorem Run.consistent_of_mem_outcomes {limit : Nat} (hlimit : 0 < limit) {entrants : List Entrant}
    {o : Outcome} (h : o ∈ (perform limit entrants).outcomes) : o.Consistent := by
  rw [outcomes_perform hlimit] at h
  obtain ⟨stint, hstint, rfl⟩ := List.mem_map.1 h
  rw [job_of_mem_stints hstint]
  exact Visit.consistent_outcome ..

/-- At the end of an interleaving there is an outcome for each session, and the parts of each
agree. -/
theorem Dispatch.Tracked.consistent_finish {σ : Type} {observe : σ → Outcome → σ} {state : σ}
    {entrants : List Entrant} {sent : List Outcome} {d : Dispatch σ}
    (h : Tracked observe state (entrants.map (·.settings.trader)) [] sent d)
    (hdone : d.isDone = true) (hsends : ∀ o ∈ sent, Run.Sends entrants o) (elapsed : Span) :
    (d.finish observe elapsed).outcomes.length = entrants.length ∧
      ∀ o ∈ (d.finish observe elapsed).outcomes, o.Consistent := by
  obtain ⟨owed, -, houtcomes⟩ := h.finish hdone elapsed
  have hperm := (Collector.traders_settle h.balanced elapsed).length_eq
  rw [List.length_map, List.length_map] at hperm
  refine ⟨hperm, ?_⟩
  intro o ho
  rw [houtcomes] at ho
  rcases List.mem_append.1 ho with hsent | hlost
  · exact (hsends o hsent).consistent
  · obtain ⟨trader, -, rfl⟩ := List.mem_map.1 hlost
    exact Outcome.consistent_untraded _ _ rfl

/-- The parts of every outcome of a run agree, whatever its sessions meet; and so they do in every
interleaving of its tasks, whichever of them are lost. -/
theorem outcomes_consistent (requested : Nat) (entrants : List Entrant) :
    (∀ o ∈ (Run.perform (Slots.effectiveLimit requested) entrants).outcomes, o.Consistent) ∧
    ∀ (σ : Type) (observe : σ → Outcome → σ) (state : σ) (elapsed : Span) (moves : List Move)
      (d : Dispatch σ),
      (Dispatch.start requested (entrants.map (·.settings.trader)) state).run? observe moves =
        some d →
      d.isDone = true → (∀ o ∈ moves.filterMap Move.outcome?, Run.Sends entrants o) →
      (d.finish observe elapsed).outcomes.length = entrants.length ∧
      ∀ o ∈ (d.finish observe elapsed).outcomes, o.Consistent := by
  constructor
  · intro o
    exact Run.consistent_of_mem_outcomes (Slots.effectiveLimit_pos requested)
  · intro σ observe state elapsed moves d hrun hdone hsends
    obtain ⟨htracked, -⟩ := (Dispatch.Tracked.start requested _).run hrun
    exact htracked.consistent_finish hdone hsends elapsed

/-- A session that is refused and one that trades share a slot; in one interleaving the task of the
second is lost. -/
theorem outcomes_consistent_one_lost :
    let settings (name : String) : SessionSettings :=
      { SessionSettings.standard ⟨name⟩ ⟨"mock", 8888⟩ .standard with duration := .zero }
    let entrants : List Entrant :=
      [⟨settings "a", .unreachable⟩,
        ⟨settings "b", { Peer.quiet with fallback := .habit .hangup 1 }⟩]
    let refused : Outcome := .untraded ⟨"a"⟩ .zero
      (.connect "mock:8888" "Network is unreachable (os error 101)")
    let lost : Outcome := Collector.lostOutcome .zero ⟨"b"⟩
    let moves : List Move := [.seat, .finish 0 (.sends refused), .seat, .finish 0 .lost, .receive]
    let observe := fun (seen : Nat) (_ : Outcome) => seen + 1
    let run := Run.perform (Slots.effectiveLimit 1) entrants
    (run.outcomes.map fun o => (o.success, o.sent, o.skipped)) = [(false, 0, 0), (true, 0, 1)] ∧
      (∀ o ∈ run.outcomes, o.Consistent) ∧
      ∃ d, (Dispatch.start 1 (entrants.map (·.settings.trader)) 0).run? observe moves = some d ∧
        d.isDone = true ∧ (d.finish observe .zero).outcomes = [refused, lost] ∧
        ∀ o ∈ (d.finish observe .zero).outcomes, o.Consistent := by
  intro settings entrants refused lost moves observe run
  have hrefused : (Visit.ofEntrant 0 ⟨settings "a", .unreachable⟩).outcome = refused := by
    decide +kernel
  have hsends : ∀ o ∈ moves.filterMap Move.outcome?, Run.Sends entrants o := by
    intro o ho
    obtain rfl : o = refused := List.mem_singleton.1 ho
    rw [← hrefused]
    exact .visit 0 List.mem_cons_self
  obtain ⟨hrun, hinterleaved⟩ := outcomes_consistent 1 entrants
  refine ⟨by decide +kernel, hrun, _, rfl, rfl, rfl, ?_⟩
  exact (hinterleaved Nat observe 0 .zero moves _ rfl rfl hsends).2

end MarketLoad
