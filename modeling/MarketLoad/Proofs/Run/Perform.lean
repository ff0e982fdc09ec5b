import MarketLoad.Run.Result
import MarketLoad.Proofs.Run.ExactlyOnce
import MarketLoad.Proofs.Run.Schedule
import MarketLoad.Proofs.Session.Course

/-!
# The outcomes of a run

A run visits each of its sessions once (`Run.perm_entrants_perform`), each from the time at which it
takes its slot (`Run.job_of_mem_stints`), and reports what the visits deliver and nothing else
(`Run.outcomes_perform`). It is one of the interleavings of its tasks (`Run.exists_interleaving`).
-/

namespace MarketLoad

open Venue

theorem Visit.trader_outcome (start : Nat) (e : Entrant) :
    (Visit.ofEntrant start e).outcome.trader = e.settings.trader := by
  unfold Visit.outcome Course.outcome
  split
  · rename_i o ho
    exact Session.trader_of_course ho
  · rfl

namespace Collector

variable {σ : Type} {observe : σ → Outcome → σ} {state : σ} {requested : List Trader}

/-- Outcomes that are all owed settle all that is owed. -/
theorem owed_foldl_receive (observe : σ → Outcome → σ) (c : Collector σ) (delivered : List Outcome)
    (h : c.owed.traders.Perm (delivered.map (·.trader))) :
    (delivered.foldl (receive observe) c).owed.traders = [] ∧
      (delivered.foldl (receive observe) c).outcomes = c.outcomes ++ delivered := by
  induction delivered generalizing c with
  | nil => exact ⟨List.perm_nil.1 h, (List.append_nil _).symm⟩
  | cons o rest ih =>
    have howed : (c.receive observe o).owed.traders.Perm (rest.map (·.trader)) := by
      have hs : (c.receive observe o).owed.traders = c.owed.traders.erase o.trader :=
        Debts.traders_settle c.owed o.trader
      rw [hs]
      have herase := h.erase o.trader
      rwa [List.map_cons, List.erase_cons_head] at herase
    obtain ⟨hnone, houtcomes⟩ := ih (c.receive observe o) howed
    refine ⟨hnone, houtcomes.trans ?_⟩
    rw [outcomes_receive, List.append_assoc, List.singleton_append]

/-- If everything asked for is delivered, nothing is made up. -/
theorem outcomes_collect {delivered : List Outcome} (elapsed : Span)
    (h : (delivered.map (·.trader)).Perm requested) :
    (collect observe state requested delivered elapsed).outcomes = delivered := by
  obtain ⟨hnone, houtcomes⟩ := owed_foldl_receive observe (start requested state) delivered
    ((Debts.traders_ofTraders requested).trans h.symm)
  rw [collect, outcomes_settle, hnone, houtcomes, List.map_nil, List.append_nil]
  rfl

end Collector

namespace Run

variable {limit : Nat} {entrants : List Entrant}

/-- The schedule of a run's sessions. -/
def schedule (limit : Nat) (entrants : List Entrant) : Schedule Entrant :=
  Schedule.ofJobs limit (fun start e => (Visit.ofEntrant start e).length) entrants

theorem wall_perform : (perform limit entrants).wall = .ofMillis (schedule limit entrants).now := rfl

theorem stints_perform : (perform limit entrants).stints =
    (schedule limit entrants).stints.map fun s => { s with job := Visit.ofEntrant s.start s.job } :=
  rfl

/-- A session is visited from the time at which its stint starts. -/
theorem job_of_mem_stints {stint : Stint Visit} (h : stint ∈ (perform limit entrants).stints) :
    stint.job = Visit.ofEntrant stint.start stint.job.entrant := by
  rw [stints_perform] at h
  obtain ⟨s, -, rfl⟩ := List.mem_map.1 h
  rfl

/-- A visit takes the time of its course and lies within the run. -/
theorem finish_of_mem_stints {stint : Stint Visit} (h : stint ∈ (perform limit entrants).stints) :
    stint.finish - stint.start = stint.job.length ∧ stint.job.course.finish ≤ stint.finish ∧
      stint.finish ≤ (schedule limit entrants).now := by
  rw [stints_perform] at h
  obtain ⟨s, hs, rfl⟩ := List.mem_map.1 h
  obtain ⟨hfinish, hnow⟩ := Schedule.of_mem_stints_ofJobs hs
  have hstart : (Visit.ofEntrant s.start s.job).course.start = s.start := Session.start_course ..
  refine ⟨?_, ?_, hnow⟩
  · rw [hfinish, Nat.add_sub_cancel_left]
  · have hlength : (Visit.ofEntrant s.start s.job).length =
        (Visit.ofEntrant s.start s.job).course.finish - s.start := congrArg _ hstart
    dsimp only at hfinish ⊢
    omega

/-- Every session is visited once. -/
theorem perm_entrants_perform (hlimit : 0 < limit) (entrants : List Entrant) :
    ((perform limit entrants).stints.map (·.job.entrant)).Perm entrants := by
  rw [stints_perform, List.map_map]
  exact Schedule.perm_stints_ofJobs hlimit _ entrants

theorem perm_traders_perform (hlimit : 0 < limit) (entrants : List Entrant) :
    (((perform limit entrants).stints.map (·.job.outcome)).map (·.trader)).Perm
      (entrants.map (·.settings.trader)) := by
  have h := (perm_entrants_perform hlimit entrants).map (·.settings.trader)
  rw [List.map_map] at h ⊢
  refine .trans (.of_eq (List.map_congr_left fun stint hs => ?_)) h
  simp only [Function.comp_apply]
  rw [job_of_mem_stints hs]
  exact Visit.trader_outcome ..

/-- A run reports what its visits deliver, in the order of their ends. -/
theorem outcomes_perform (hlimit : 0 < limit) (entrants : List Entrant) :
    (perform limit entrants).outcomes = (perform limit entrants).stints.map (·.job.outcome) :=
  Collector.outcomes_collect _ (perm_traders_perform hlimit entrants)

/-! ### A run as an interleaving of its tasks -/

/-- The outcomes of some stints, the last one first, in the order of their ends. -/
private def delivered (stints : List (Stint Entrant)) : List Outcome :=
  stints.reverse.map fun s => (Visit.ofEntrant s.start s.job).outcome

/-- A run of tasks in the state of a schedule: the same tasks wait, hold slots and are done, and
every outcome has been taken in. -/
private structure Mirrors (c : Collector (Except Fault Totals)) (s : Schedule Entrant)
    (d : Dispatch (Except Fault Totals)) : Prop where
  slots : d.slots = s.slots
  queued : d.queued = s.waiting.map (·.settings.trader)
  active : d.active.Perm (s.holding.map (·.job.settings.trader))
  lost : d.lost = []
  channel : d.channel = []
  collector : d.collector = (delivered s.finished).foldl (Collector.receive observe) c

private theorem run?_append {d : Dispatch (Except Fault Totals)} (moves rest : List Move) :
    d.run? observe (moves ++ rest) = (d.run? observe moves).bind (·.run? observe rest) := by
  induction moves generalizing d with
  | nil => rfl
  | cons move moves ih =>
    simp only [List.cons_append, Dispatch.run?, Option.bind_assoc, ih]

private theorem Mirrors.step {length : Nat → Entrant → Nat} {s s' : Schedule Entrant}
    {c : Collector (Except Fault Totals)} {d : Dispatch (Except Fault Totals)}
    (h : Mirrors c s d) (hs : s.step length = some s') :
    ∃ moves d', d.run? observe moves = some d' ∧ Mirrors c s' d' := by
  obtain ⟨hslots, hqueued, hactive, hlost, hchannel, hcollector⟩ := h
  obtain ⟨stint, holding, hh, -, rfl⟩ | ⟨job, waiting, hw, hfree, rfl⟩ := Schedule.step_cases hs
  · -- A stint that ends is a task that sends its outcome, which is taken in at once.
    rw [hh, List.map_cons] at hactive
    obtain ⟨place, hplace⟩ := List.getElem?_of_mem (hactive.mem_iff.2 List.mem_cons_self)
    have htrader := Visit.trader_outcome stint.start stint.job
    refine ⟨[.finish place (.sends (Visit.ofEntrant stint.start stint.job).outcome), .receive],
      { d with
        slots := d.slots.leave.release
        active := d.active.eraseIdx place
        collector := d.collector.receive observe (Visit.ofEntrant stint.start stint.job).outcome },
      ?_, ?_⟩
    · simp only [Dispatch.run?, Dispatch.step?, hplace, Option.bind_some, Dispatch.close?, htrader,
        if_pos, hchannel, List.nil_append]
    · refine ⟨?_, hqueued, ?_, hlost, hchannel, ?_⟩
      · rw [hslots]; rfl
      · obtain ⟨hlt, hget⟩ := List.getElem?_eq_some_iff.1 hplace
        have herase := (List.getElem_cons_eraseIdx_perm hlt).trans hactive
        rw [hget] at herase
        exact herase.cons_inv
      · simp only [delivered, Schedule.dismiss, List.reverse_cons, List.map_append,
          List.map_cons, List.map_nil, List.foldl_append, List.foldl_cons, List.foldl_nil]
        rw [hcollector]; rfl
  · refine ⟨[.seat],
      { d with
        slots := { d.slots with held := d.slots.held + 1 }.enter
        queued := waiting.map (·.settings.trader)
        active := d.active ++ [job.settings.trader] }, ?_, ?_⟩
    · rw [hw, List.map_cons] at hqueued
      simp only [Dispatch.run?, Dispatch.step?, hqueued, Slots.acquire?, hslots, if_pos hfree,
        Option.map_some, Option.bind_some]
    · refine ⟨?_, rfl, ?_, hlost, hchannel, hcollector⟩
      · rw [hslots]; rfl
      · have hinsert := (Schedule.insert_perm ⟨job, s.now, s.now + length s.now job⟩
          s.holding).map (·.job.settings.trader)
        refine .trans ?_ hinsert.symm
        exact (List.perm_append_singleton ..).trans (hactive.cons _)

private theorem Mirrors.run {s : Schedule Entrant}
    {c : Collector (Except Fault Totals)} {d : Dispatch (Except Fault Totals)}
    (h : Mirrors c s d) (length : Nat → Entrant → Nat) :
    ∃ moves d', d.run? observe moves = some d' ∧ Mirrors c (s.run length) d' := by
  induction s using Schedule.run.induct length generalizing d with
  | case1 s hn => rw [Schedule.run, hn]; exact ⟨[], d, rfl, h⟩
  | case2 s s' hs ih =>
    obtain ⟨moves, d', hmoves, h'⟩ := h.step hs
    obtain ⟨rest, d'', hrest, h''⟩ := ih h'
    refine ⟨moves ++ rest, d'', ?_, ?_⟩
    · rw [run?_append, hmoves]; exact hrest
    · rw [Schedule.run, hs]; exact h''

/-- A run on the clock is one of the interleavings of its tasks: some moves of the tasks and the
collector, after which everything is done, come to the same outcomes and the same totals. -/
theorem exists_interleaving (requested : Nat) (entrants : List Entrant) :
    ∃ moves d, (Dispatch.start requested (entrants.map (·.settings.trader)) (.ok .empty)).run?
        observe moves = some d ∧ d.isDone = true ∧
      (d.finish observe (perform (Slots.effectiveLimit requested) entrants).wall).outcomes =
        (perform (Slots.effectiveLimit requested) entrants).outcomes ∧
      (d.finish observe (perform (Slots.effectiveLimit requested) entrants).wall).observed =
        (perform (Slots.effectiveLimit requested) entrants).totals := by
  have hlimit := Slots.effectiveLimit_pos requested
  have hstart : Mirrors (.start (entrants.map (·.settings.trader)) (.ok .empty))
      (.start (Slots.effectiveLimit requested) entrants)
      (.start requested (entrants.map (·.settings.trader)) (.ok .empty)) :=
    ⟨rfl, rfl, .refl _, rfl, rfl, rfl⟩
  obtain ⟨moves, d, hmoves, hend⟩ :=
    hstart.run fun start e => (Visit.ofEntrant start e).length
  obtain ⟨hwaiting, hholding⟩ := Schedule.ofJobs_done hlimit
    (fun start e => (Visit.ofEntrant start e).length) entrants
  obtain ⟨-, hqueued, hactive, -, hchannel, hcollector⟩ := hend
  have hcollected : d.finish observe (perform (Slots.effectiveLimit requested) entrants).wall =
      Collector.collect observe (.ok .empty) (entrants.map (·.settings.trader))
        ((perform (Slots.effectiveLimit requested) entrants).stints.map (·.job.outcome))
        (perform (Slots.effectiveLimit requested) entrants).wall := by
    rw [Dispatch.finish, hcollector, Collector.collect, stints_perform, List.map_map]
    rfl
  refine ⟨moves, d, hmoves, ?_, congrArg Collector.outcomes hcollected,
    congrArg Collector.observed hcollected⟩
  simp only [Dispatch.isDone, Bool.and_eq_true, List.isEmpty_iff]
  refine ⟨⟨?_, ?_⟩, hchannel⟩
  · rw [hqueued]; exact congrArg _ hwaiting
  · refine List.perm_nil.1 (hactive.trans (.of_eq ?_))
    exact congrArg _ hholding

end Run

end MarketLoad
