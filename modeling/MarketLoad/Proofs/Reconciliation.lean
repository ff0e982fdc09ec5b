import MarketLoad.Export
import MarketLoad.Proofs.Consistency
import MarketLoad.Proofs.Totals

/-!
# Reports reconcile

The report of a run is made from the totals that its observer has added up as outcomes came in. It
is also the report of all outcomes at once (`Run.foldl_observe`), and of the outcomes as an export
sorts them (`Report.ofOutcomes_perm`), since totals are sums. Because the parts of
each outcome agree, so do the figures of the report (`Report.Agrees`): nothing is subtracted below
zero, no more sessions are registered than have traded, and no more round trips are measured than
orders were sent.
-/

namespace MarketLoad

/-! ### Totals -/

/-- An observer that adds outcomes up has added them one by one. -/
theorem Run.foldl_observe (outcomes : List Outcome) (totals : Except Fault Totals) :
    outcomes.foldl observe totals = totals >>= (·.recordAll outcomes) := by
  induction outcomes generalizing totals with
  | nil => cases totals <;> rfl
  | cons o outcomes ih =>
    rw [List.foldl_cons, ih]
    cases totals <;> rfl

/-- A counter that an outcome raises by one or not at all counts outcomes. -/
theorem Counter.total_eq_countP {c : Counter} {p : Outcome → Bool}
    (h : ∀ o, (Totals.ofOutcome o).amount c = if p o then 1 else 0) (outcomes : List Outcome) :
    c.total outcomes = outcomes.countP p := by
  induction outcomes with
  | nil => rfl
  | cons o outcomes ih => rw [total_cons, ih, List.countP_cons, h, Nat.add_comm]

theorem Counter.total_sessions (outcomes : List Outcome) :
    sessions.total outcomes = outcomes.length := by
  rw [← List.countP_true]
  exact total_eq_countP (fun _ => rfl) outcomes

theorem Counter.total_successful (outcomes : List Outcome) :
    successful.total outcomes = outcomes.countP (·.success) := by
  apply total_eq_countP
  intro o
  simp only [Totals.amount, Totals.ofOutcome]
  split <;> rfl

theorem Counter.total_registered (outcomes : List Outcome) :
    registered.total outcomes = outcomes.countP (·.registered) := by
  apply total_eq_countP
  intro o
  simp only [Totals.amount, Totals.ofOutcome]
  split <;> rfl

/-- Some totals hold no more round trips than orders. -/
def Totals.Measured (t : Totals) : Prop := Histogram.mass t.latency.buckets ≤ t.orders.toNat

theorem Totals.Measured.record {t t' : Totals} {o : Outcome} (h : t.Measured)
    (ho : Histogram.mass o.latency.buckets ≤ o.sent.toNat) (hrecord : t.record o = .ok t') :
    t'.Measured := by
  obtain ⟨sessions, -, hrecord⟩ := bind_eq_ok.1 hrecord
  obtain ⟨successful, -, hrecord⟩ := bind_eq_ok.1 hrecord
  obtain ⟨registered, -, hrecord⟩ := bind_eq_ok.1 hrecord
  obtain ⟨orders, horders, hrecord⟩ := bind_eq_ok.1 hrecord
  obtain ⟨skipped, -, hrecord⟩ := bind_eq_ok.1 hrecord
  obtain ⟨latency, hlatency, hrecord⟩ := bind_eq_ok.1 hrecord
  obtain ⟨buckets, hbuckets, hlatency⟩ := bind_eq_ok.1 hlatency
  cases hlatency
  cases hrecord
  have hmass := Histogram.mass_le_of_mergeBuckets hbuckets
  have hsum := toNat_of_addCounters horders
  unfold Measured at h ⊢
  dsimp only
  omega

theorem Totals.Measured.recordAll {t t' : Totals} {outcomes : List Outcome} (h : t.Measured)
    (houtcomes : ∀ o ∈ outcomes, Histogram.mass o.latency.buckets ≤ o.sent.toNat)
    (hrecord : t.recordAll outcomes = .ok t') : t'.Measured := by
  induction outcomes generalizing t with
  | nil =>
    cases hrecord
    exact h
  | cons o outcomes ih =>
    obtain ⟨ho, houtcomes⟩ := List.forall_mem_cons.1 houtcomes
    obtain ⟨t₁, hfirst, hrest⟩ := bind_eq_ok.1 hrecord
    exact ih (h.record ho hfirst) houtcomes hrest

/-! ### Reports -/

theorem Outcome.Consistent.mass_le {o : Outcome} (h : o.Consistent) :
    Histogram.mass o.latency.buckets ≤ o.sent.toNat := by
  obtain ⟨total, htotal, hle⟩ := h.measured
  rw [← Histogram.toNat_of_total htotal]
  exact UInt64.le_iff_toNat_le.1 hle

/-- A session that is registered has traded. -/
theorem Outcome.Consistent.success_of_registered {o : Outcome} (h : o.Consistent)
    (hregistered : o.registered = true) : o.success = true := by
  cases hsuccess : o.success with
  | true => rfl
  | false =>
    have hnot := (h.untraded hsuccess).2.2.2
    rw [hregistered] at hnot
    cases hnot

/-- A report is not about the order of its outcomes. -/
theorem Report.ofOutcomes_perm {outcomes outcomes' : List Outcome} (h : outcomes.Perm outcomes')
    (wall : Span) : ofOutcomes outcomes wall = ofOutcomes outcomes' wall := by
  have hsame : Totals.empty.recordAll outcomes = Totals.empty.recordAll outcomes' :=
    (sums_recordAll outcomes).unique
      ((sums_recordAll outcomes').congr fun c => (c.total_perm h).symm)
  rw [ofOutcomes, ofOutcomes, hsame]

/-- The figures of a report agree with some outcomes and with each other. -/
structure Report.Agrees (r : Report) (outcomes : List Outcome) (wall : Span) : Prop where
  sessions : r.sessions.toNat = outcomes.length
  successful_add_failed : r.successful.toNat + r.failed.toNat = outcomes.length
  failed : r.failed.toNat = outcomes.countP (!·.success)
  registered_le : r.registered ≤ r.successful
  orders : r.orders.toNat = (outcomes.map (·.sent.toNat)).sum
  skipped : r.skipped.toNat = (outcomes.map (·.skipped.toNat)).sum
  latency : ∃ total, r.latency.total = .ok total ∧ total ≤ r.orders
  wall : r.wall = wall

/-- Outcomes whose sums fit their counters have a report, and its figures agree. -/
theorem Report.exists_agrees {outcomes : List Outcome} (hconsistent : ∀ o ∈ outcomes, o.Consistent)
    (hfits : ∀ c : Counter, c.total outcomes < UInt64.size) (wall : Span) :
    ∃ r, ofOutcomes outcomes wall = .ok r ∧ r.Agrees outcomes wall := by
  have hsums := sums_recordAll outcomes
  cases htotals : Totals.empty.recordAll outcomes with
  | error fault =>
    rw [htotals] at hsums
    obtain ⟨-, c, hc⟩ := hsums
    exact absurd (hfits c) (Nat.not_lt.2 hc)
  | ok t =>
    rw [htotals] at hsums
    have hamount (c : Counter) : t.amount c = c.total outcomes := congrFun hsums.2 c
    have hsessions : t.sessions.toNat = outcomes.length :=
      (hamount .sessions).trans (Counter.total_sessions outcomes)
    have hsuccessful : t.successful.toNat = outcomes.countP (·.success) :=
      (hamount .successful).trans (Counter.total_successful outcomes)
    have hregistered : t.registered.toNat = outcomes.countP (·.registered) :=
      (hamount .registered).trans (Counter.total_registered outcomes)
    have hsplit := List.length_eq_countP_add_countP (l := outcomes) (·.success)
    simp only [Bool.not_eq_true, Bool.decide_eq_false] at hsplit
    have hle : t.successful ≤ t.sessions := by
      rw [UInt64.le_iff_toNat_le, hsessions, hsuccessful]
      exact List.countP_le_length
    have hfailed : (t.sessions - t.successful).toNat = outcomes.countP (!·.success) := by
      rw [UInt64.toNat_sub_of_le _ _ hle, hsessions, hsuccessful]
      omega
    have hmeasured : t.Measured := by
      have hempty : Totals.empty.Measured := by
        unfold Totals.Measured
        decide
      exact hempty.recordAll (fun o ho => (hconsistent o ho).mass_le) htotals
    refine ⟨_, by rw [ofOutcomes, htotals]; exact if_pos hle, ?_⟩
    refine
      { sessions := hsessions
        successful_add_failed := ?_
        failed := hfailed
        registered_le := ?_
        orders := hamount .orders
        skipped := hamount .skipped
        latency := ?_
        wall := rfl }
    · dsimp only
      rw [hfailed, hsuccessful]
      exact hsplit.symm
    · rw [UInt64.le_iff_toNat_le, hregistered, hsuccessful]
      exact List.countP_mono_left fun o ho => (hconsistent o ho).success_of_registered
    · have hfits : Histogram.mass t.latency.buckets < UInt64.size :=
        Nat.lt_of_le_of_lt hmeasured t.orders.toNat_lt_size
      obtain ⟨total, htotal, hmass⟩ := Histogram.total_eq_mass hfits
      refine ⟨total, htotal, ?_⟩
      rw [UInt64.le_iff_toNat_le, hmass]
      exact hmeasured

/-- What an observer has added up, all outcomes at once and the outcomes of an export lead to one
report; if it can be made, its figures agree. -/
structure Reconciled (observed : Except Fault Totals) (outcomes : List Outcome) (wall : Span) :
    Prop where
  batch : (observed >>= (·.finish wall)) = Report.ofOutcomes outcomes wall
  exported : ∀ id time parameters report peak,
    Report.ofOutcomes (Export.ofRun id time parameters report outcomes peak).outcomes wall =
      Report.ofOutcomes outcomes wall
  agrees : (∀ c : Counter, c.total outcomes < UInt64.size) →
    ∃ r, Report.ofOutcomes outcomes wall = .ok r ∧ r.Agrees outcomes wall

theorem Reconciled.of_consistent {observed : Except Fault Totals} {outcomes : List Outcome}
    (hobserved : observed = outcomes.foldl Run.observe (.ok .empty))
    (hconsistent : ∀ o ∈ outcomes, o.Consistent) (wall : Span) :
    Reconciled observed outcomes wall where
  batch := by
    rw [hobserved, Run.foldl_observe]
    rfl
  exported _ _ _ _ _ := Report.ofOutcomes_perm (List.mergeSort_perm ..) wall
  agrees hfits := Report.exists_agrees hconsistent hfits wall

/-! ### Runs -/

theorem Dispatch.Tracked.reconciled {entrants : List Entrant} {sent : List Outcome}
    {d : Dispatch (Except Fault Totals)}
    (h : Tracked Run.observe (.ok .empty) (entrants.map (·.settings.trader)) [] sent d)
    (hdone : d.isDone = true) (hsends : ∀ o ∈ sent, Run.Sends entrants o) (elapsed wall : Span) :
    Reconciled (d.finish Run.observe elapsed).observed (d.finish Run.observe elapsed).outcomes
      wall :=
  .of_consistent (Collector.observed_settle h.balanced elapsed)
    (h.consistent_finish hdone hsends elapsed).2 wall

/-- The totals of a run on the clock are those of its outcomes in their order. -/
theorem Run.totals_perform (requested : Nat) (entrants : List Entrant) :
    (perform (Slots.effectiveLimit requested) entrants).totals =
      (perform (Slots.effectiveLimit requested) entrants).outcomes.foldl observe (.ok .empty) := by
  obtain ⟨moves, d, hmoves, hdone, houtcomes, hobserved⟩ := exists_interleaving requested entrants
  obtain ⟨htracked, -⟩ := (Dispatch.Tracked.start requested _).run hmoves
  rw [← houtcomes, ← hobserved]
  exact Collector.observed_settle htracked.balanced _

/-- **Reports reconcile.** Whatever the sessions of a run meet, whichever of its tasks are lost and
in whatever order they end, there is one outcome for each session; the report made from the totals
that came in one by one is the report of all outcomes and of those in an export; and as long as the
sums fit their counters it exists and its figures agree with the outcomes and with each other. -/
theorem reports_reconcile (requested : Nat) (entrants : List Entrant) :
    let run := Run.perform (Slots.effectiveLimit requested) entrants
    (run.outcomes.length = entrants.length ∧ Reconciled run.totals run.outcomes run.wall) ∧
    ∀ (elapsed wall : Span) (moves : List Move) (d : Dispatch (Except Fault Totals)),
      (Dispatch.start requested (entrants.map (·.settings.trader)) (.ok .empty)).run? Run.observe
        moves = some d →
      d.isDone = true → (∀ o ∈ moves.filterMap Move.outcome?, Run.Sends entrants o) →
      (d.finish Run.observe elapsed).outcomes.length = entrants.length ∧
      Reconciled (d.finish Run.observe elapsed).observed (d.finish Run.observe elapsed).outcomes
        wall := by
  intro run
  have hlimit := Slots.effectiveLimit_pos requested
  constructor
  · refine ⟨?_, .of_consistent (Run.totals_perform requested entrants)
      (fun _ => Run.consistent_of_mem_outcomes hlimit) _⟩
    have hlength := (Run.perm_entrants_perform hlimit entrants).length_eq
    rwa [List.length_map, ← List.length_map (·.job.outcome), ← Run.outcomes_perform hlimit]
      at hlength
  · intro elapsed wall moves d hrun hdone hsends
    obtain ⟨htracked, -⟩ := (Dispatch.Tracked.start requested _).run hrun
    exact ⟨(htracked.consistent_finish hdone hsends elapsed).1,
      htracked.reconciled hdone hsends elapsed wall⟩

/-- A session that is refused and one that trades share a slot; in one interleaving the task of the
second is lost. Its report has two failed sessions then, and one otherwise. -/
theorem reports_reconcile_one_lost :
    let settings (name : String) : SessionSettings :=
      { SessionSettings.standard ⟨name⟩ ⟨"mock", 8888⟩ .standard with duration := .zero }
    let entrants : List Entrant :=
      [⟨settings "a", .unreachable⟩,
        ⟨settings "b", { Venue.Peer.quiet with fallback := .habit .hangup 1 }⟩]
    let refused : Outcome := .untraded ⟨"a"⟩ .zero
      (.connect "mock:8888" "Network is unreachable (os error 101)")
    let lost : Outcome := Collector.lostOutcome .zero ⟨"b"⟩
    let moves : List Move := [.seat, .finish 0 (.sends refused), .seat, .finish 0 .lost, .receive]
    let run := Run.perform (Slots.effectiveLimit 1) entrants
    run.outcomes.map (·.success) = [false, true] ∧
      Reconciled run.totals run.outcomes run.wall ∧
      ∃ d, (Dispatch.start 1 (entrants.map (·.settings.trader)) (.ok .empty)).run? Run.observe
          moves = some d ∧
        (d.finish Run.observe .zero).outcomes = [refused, lost] ∧
        ∃ r, ((d.finish Run.observe .zero).observed >>= (·.finish .zero)) = .ok r ∧
          r.sessions.toNat = 2 ∧ r.failed.toNat = 2 := by
  intro settings entrants refused lost moves run
  have hrefused : (Visit.ofEntrant 0 ⟨settings "a", .unreachable⟩).outcome = refused := by
    decide +kernel
  have hsends : ∀ o ∈ moves.filterMap Move.outcome?, Run.Sends entrants o := by
    intro o ho
    obtain rfl : o = refused := List.mem_singleton.1 ho
    rw [← hrefused]
    exact .visit 0 List.mem_cons_self
  have hbucket : ∀ place, (Counter.bucket place).total [refused, lost] < UInt64.size := by
    decide +kernel
  obtain ⟨⟨-, hrun⟩, hinterleaved⟩ := reports_reconcile 1 entrants
  obtain ⟨-, hreconciled⟩ := hinterleaved .zero .zero moves _ rfl rfl hsends
  obtain ⟨r, hr, hagrees⟩ := hreconciled.agrees fun c => by
    cases c with
    | bucket place => exact hbucket place
    | _ => decide +kernel
  exact ⟨by decide +kernel, hrun, _, rfl, rfl, r, hreconciled.batch.trans hr, hagrees.sessions,
    hagrees.failed⟩

end MarketLoad
