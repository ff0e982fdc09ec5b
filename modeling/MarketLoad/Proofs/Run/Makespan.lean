import Mathlib.Algebra.BigOperators.Intervals
import Mathlib.Algebra.BigOperators.Ring.List
import Mathlib.Algebra.Group.Action.Defs
import Mathlib.Algebra.Order.BigOperators.Group.Finset
import Mathlib.Data.List.MinMax
import MarketLoad.Proofs.Run.SlotLimit
import MarketLoad.Proofs.Session.SlotTime

/-!
# How long a run takes

A schedule does as much work at each instant as jobs hold slots (`Schedule.sum_crowd`). So the slots
bound its work from above (`Schedule.work_le`). And they are all held until the last job starts, so
that only the time of one job is lost on the others (`Schedule.limit_mul_finish_le`), which is the
bound for list schedules. The outcomes of a run tell the times for which its sessions held their
slots (`Run.elapsed_of_mem_stints`), so the two bounds are about what the run reports
(`Run.wall_bounds`).
-/

namespace MarketLoad

namespace Schedule

variable {α : Type} {length : Nat → α → Nat} {jobs : List α} {s s' : Schedule α} {limit bound : Nat}
  {stints : List (Stint α)} {stint : Stint α}

/-- The time for which some stints hold slots, taken together. -/
def work (stints : List (Stint α)) : Nat := (stints.map fun st => st.finish - st.start).sum

theorem crowd_cons (time : Nat) (stint : Stint α) (stints : List (Stint α)) :
    crowd time (stint :: stints) =
      (if stint.start ≤ time ∧ time < stint.finish then 1 else 0) + crowd time stints := by
  rw [crowd, List.countP_cons, Nat.add_comm]
  simp only [decide_eq_true_eq]
  rfl

private theorem sum_interval {start finish : Nat} (h : finish ≤ bound) :
    (∑ time ∈ Finset.range bound, if start ≤ time ∧ time < finish then 1 else 0) =
      finish - start := by
  have hfilter : (Finset.range bound).filter (fun time => start ≤ time ∧ time < finish) =
      Finset.Ico start finish := by
    ext time
    simp only [Finset.mem_filter, Finset.mem_range, Finset.mem_Ico]
    omega
  rw [← Finset.card_filter, hfilter, Nat.card_Ico]

/-- The work of some stints is done by those that hold a slot, instant by instant. -/
theorem sum_crowd (h : ∀ st ∈ stints, st.finish ≤ bound) :
    ∑ time ∈ Finset.range bound, crowd time stints = work stints := by
  induction stints with
  | nil => exact Finset.sum_const_zero
  | cons stint stints ih =>
    obtain ⟨hfirst, hrest⟩ := List.forall_mem_cons.1 h
    simp only [crowd_cons, Finset.sum_add_distrib]
    rw [sum_interval hfirst, ih hrest]
    exact (List.sum_cons ..).symm

/-- The work is no more than the slots can do. -/
theorem work_le (h : ∀ st ∈ stints, st.finish ≤ bound)
    (hcrowd : ∀ time, crowd time stints ≤ limit) : work stints ≤ limit * bound := by
  rw [← sum_crowd h, Nat.mul_comm]
  have hsum := Finset.sum_le_card_nsmul (Finset.range bound) (crowd · stints) limit
    fun time _ => hcrowd time
  rwa [Finset.card_range, smul_eq_mul] at hsum

theorem one_le_crowd {time : Nat} (hstint : stint ∈ stints) (hstart : stint.start ≤ time)
    (hfinish : time < stint.finish) : 1 ≤ crowd time stints :=
  List.countP_pos_iff.2 ⟨stint, hstint, decide_eq_true ⟨hstart, hfinish⟩⟩

/-- If all slots are held until a stint starts, its finish is bounded by the work: what the other
slots miss of it is lost while it runs. -/
theorem limit_mul_finish_le (hlimit : 0 < limit) (hstint : stint ∈ stints)
    (hfull : ∀ time < stint.start, crowd time stints = limit)
    (hstart : stint.start ≤ stint.finish) (h : ∀ st ∈ stints, st.finish ≤ stint.finish) :
    limit * stint.finish ≤ work stints + (limit - 1) * (stint.finish - stint.start) := by
  have hbefore : ∑ time ∈ Finset.range stint.start, crowd time stints = limit * stint.start := by
    rw [Finset.sum_congr rfl fun time htime => hfull time (Finset.mem_range.1 htime),
      Finset.sum_const, Finset.card_range, smul_eq_mul, Nat.mul_comm]
  have hafter : stint.finish - stint.start ≤
      ∑ time ∈ Finset.Ico stint.start stint.finish, crowd time stints := by
    have hsum := Finset.card_nsmul_le_sum (Finset.Ico stint.start stint.finish) (crowd · stints) 1
      fun time htime => one_le_crowd hstint (Finset.mem_Ico.1 htime).1 (Finset.mem_Ico.1 htime).2
    rwa [Nat.card_Ico, smul_eq_mul, Nat.mul_one] at hsum
  -- All slots work up to the start, and at least one does from it on.
  have hwork : limit * stint.start + (stint.finish - stint.start) ≤ work stints := by
    rw [← sum_crowd h, ← Finset.sum_range_add_sum_Ico _ hstart, hbefore]
    exact Nat.add_le_add_left hafter _
  obtain ⟨others, rfl⟩ : ∃ others, limit = others + 1 := ⟨limit - 1, by omega⟩
  have hsplit : (others + 1) * stint.finish =
      (others + 1) * stint.start + (others * (stint.finish - stint.start) +
        (stint.finish - stint.start)) := by
    rw [← Nat.succ_mul, ← Nat.mul_add, Nat.add_sub_cancel' hstart]
  rw [hsplit, Nat.add_sub_cancel]
  omega

/-! ### Schedules that are done -/

/-- A schedule stops with the last of its stints. -/
theorem now_eq_zero_or_finish (limit : Nat) (length : Nat → α → Nat) (jobs : List α) :
    (ofJobs limit length jobs).now = 0 ∨
      ∃ st ∈ (ofJobs limit length jobs).stints, st.finish = (ofJobs limit length jobs).now := by
  have hlast : (ofJobs limit length jobs).now = 0 ∨
      ∃ st ∈ (ofJobs limit length jobs).finished, st.finish = (ofJobs limit length jobs).now := by
    apply run_induction (motive := fun s => s.now = 0 ∨ ∃ st ∈ s.finished, st.finish = s.now)
    · intro s s' hs h
      obtain ⟨stint, holding, -, -, rfl⟩ | ⟨job, waiting, -, -, rfl⟩ := step_cases hs
      · obtain hlt | hle := Nat.lt_or_ge s.now stint.finish
        · exact .inr ⟨stint, List.mem_cons_self, (Nat.max_eq_right hlt.le).symm⟩
        · have hnow : (s.dismiss stint holding).now = s.now := Nat.max_eq_left hle
          rw [hnow]
          refine h.imp_right ?_
          rintro ⟨st, hst, hfinish⟩
          exact ⟨st, List.mem_cons_of_mem _ hst, hfinish⟩
      · exact h
    · exact .inl rfl
  refine hlast.imp_right ?_
  rintro ⟨st, hst, hfinish⟩
  exact ⟨st, List.mem_reverse.2 hst, hfinish⟩

/-- If no job that starts by a time ends after it, nor does the schedule. -/
theorem now_le (hlength : ∀ start job, start ≤ bound → start + length start job ≤ bound)
    (limit : Nat) (jobs : List α) : (ofJobs limit length jobs).now ≤ bound := by
  have hbounded : (∀ st ∈ (ofJobs limit length jobs).holding, st.finish ≤ bound) ∧
      (ofJobs limit length jobs).now ≤ bound := by
    apply run_induction
      (motive := fun s => (∀ st ∈ s.holding, st.finish ≤ bound) ∧ s.now ≤ bound)
    · rintro s s' hs ⟨hholding, hnow⟩
      obtain ⟨stint, holding, hh, -, rfl⟩ | ⟨job, waiting, -, -, rfl⟩ := step_cases hs
      · rw [hh] at hholding
        obtain ⟨hfirst, hrest⟩ := List.forall_mem_cons.1 hholding
        exact ⟨hrest, Nat.max_le.2 ⟨hnow, hfirst⟩⟩
      · refine ⟨fun st hst => ?_, hnow⟩
        obtain rfl | hst := List.mem_cons.1 ((insert_perm _ _).mem_iff.1 hst)
        · exact hlength s.now job hnow
        · exact hholding st hst
    · exact ⟨nofun, Nat.zero_le _⟩
  exact hbounded.2

end Schedule

/-! ### Runs -/

namespace Run

variable {limit requested : Nat} {entrants : List Entrant} {stint : Stint Visit}

/-- A run is over by the latest reading of the clock. -/
theorem now_schedule_le (limit : Nat) (entrants : List Entrant) :
    (schedule limit entrants).now ≤ Clock.latest := by
  apply Schedule.now_le
  intro start e hstart
  have hearly := (Session.waits_course start e.settings e.peer).early
  have hfinish := (Session.waits_course start e.settings e.peer).le
  have hlength : (Visit.ofEntrant start e).length =
      (Session.course start e.settings e.peer).finish - start :=
    congrArg _ (Session.start_course start e.settings e.peer)
  rw [Nat.max_eq_right hstart] at hearly
  omega

/-- Times within a run fit a span. -/
theorem nanos_ofMillis {time : Nat} (h : time ≤ Clock.latest) :
    (Span.ofMillis time).nanos = Clock.nanos time := by
  have hlatest : Clock.nanos Clock.latest ≤ UInt64.size * Nanos.perSecond - 1 := by decide
  exact Nat.min_eq_left (Nat.le_trans (Nat.mul_le_mul_left _ h) hlatest)

/-- The outcome of a session tells the time for which it held its slot. -/
theorem elapsed_of_mem_stints (h : stint ∈ (perform limit entrants).stints) :
    stint.job.outcome.elapsed.nanos = Clock.nanos (stint.finish - stint.start) := by
  have hjob := job_of_mem_stints h
  obtain ⟨hlength, -, hnow⟩ := finish_of_mem_stints h
  have helapsed : stint.job.outcome.elapsed = .ofMillis (stint.finish - stint.start) := by
    rw [hlength, hjob]
    exact (Session.elapsed_outcome_course ..).trans
      (congrArg (fun start => Span.ofMillis (_ - start)) (Session.start_course ..).symm)
  rw [helapsed]
  apply nanos_ofMillis
  exact Nat.le_trans (Nat.sub_le ..) (Nat.le_trans hnow (now_schedule_le limit entrants))

theorem map_elapsed_outcomes (hlimit : 0 < limit) (entrants : List Entrant) :
    (perform limit entrants).outcomes.map (·.elapsed.nanos) =
      (perform limit entrants).stints.map fun st => Clock.nanos (st.finish - st.start) := by
  rw [outcomes_perform hlimit, List.map_map]
  exact List.map_congr_left fun _ => elapsed_of_mem_stints

theorem sum_elapsed_outcomes (hlimit : 0 < limit) (entrants : List Entrant) :
    ((perform limit entrants).outcomes.map (·.elapsed.nanos)).sum =
      Clock.nanos (Schedule.work (perform limit entrants).stints) := by
  rw [map_elapsed_outcomes hlimit]
  exact List.sum_map_mul_left _ _ Nanos.perMilli

/-- A run ends with the last of its sessions. -/
theorem now_schedule_eq (limit : Nat) (entrants : List Entrant) :
    (schedule limit entrants).now = 0 ∨
      ∃ stint ∈ (perform limit entrants).stints, stint.finish = (schedule limit entrants).now ∧
        stint.start ≤ stint.finish := by
  refine (Schedule.now_eq_zero_or_finish ..).imp_right ?_
  rintro ⟨s, hs, hfinish⟩
  refine ⟨{ s with job := Visit.ofEntrant s.start s.job }, ?_, hfinish, ?_⟩
  · rw [stints_perform]
    exact List.mem_map_of_mem hs
  · rw [(Schedule.of_mem_stints_ofJobs hs).1]
    exact Nat.le_add_right ..

theorem wall_perform_nil (hlimit : 0 < limit) : (perform limit []).wall = .zero := by
  have hnow : (schedule limit []).now = 0 := by
    refine (now_schedule_eq limit []).resolve_right ?_
    rintro ⟨stint, hstint, -⟩
    have hnone := (perm_entrants_perform hlimit []).mem_iff.1 (List.mem_map_of_mem hstint)
    exact List.not_mem_nil hnone
  rw [wall_perform, hnow]
  rfl

theorem nanos_wall_perform (limit : Nat) (entrants : List Entrant) :
    (perform limit entrants).wall.nanos = Clock.nanos (schedule limit entrants).now :=
  nanos_ofMillis (now_schedule_le limit entrants)

theorem elapsed_le_wall {time : Nat} (hlimit : 0 < limit)
    (h : time ∈ (perform limit entrants).outcomes.map (·.elapsed.nanos)) :
    time ≤ (perform limit entrants).wall.nanos := by
  rw [map_elapsed_outcomes hlimit] at h
  obtain ⟨stint, hstint, rfl⟩ := List.mem_map.1 h
  obtain ⟨-, -, hnow⟩ := finish_of_mem_stints hstint
  rw [nanos_wall_perform]
  exact Nat.mul_le_mul_left _ (Nat.le_trans (Nat.sub_le ..) hnow)

/-- The slots do the work of all sessions in the time of the run. -/
theorem sum_elapsed_le (hlimit : 0 < limit)
    (hpaced : Paced limit entrants (perform limit entrants)) :
    ((perform limit entrants).outcomes.map (·.elapsed.nanos)).sum ≤
      limit * (perform limit entrants).wall.nanos := by
  have hends (stint : Stint Visit) (h : stint ∈ (perform limit entrants).stints) :
      stint.finish ≤ (schedule limit entrants).now := (finish_of_mem_stints h).2.2
  have hwork := Schedule.work_le hends hpaced.crowd_le
  rw [sum_elapsed_outcomes hlimit, nanos_wall_perform]
  calc Clock.nanos (Schedule.work (perform limit entrants).stints)
    _ ≤ Clock.nanos (limit * (schedule limit entrants).now) := Nat.mul_le_mul_left _ hwork
    _ = limit * Clock.nanos (schedule limit entrants).now := Nat.mul_left_comm ..

/-- All slots are held until the last session starts, so they miss its time at most. -/
theorem limit_mul_wall_le (hlimit : 0 < limit)
    (hpaced : Paced limit entrants (perform limit entrants)) :
    limit * (perform limit entrants).wall.nanos ≤
      ((perform limit entrants).outcomes.map (·.elapsed.nanos)).sum +
        (limit - 1) * ((perform limit entrants).outcomes.map (·.elapsed.nanos)).foldr max 0 := by
  rw [sum_elapsed_outcomes hlimit, map_elapsed_outcomes hlimit, nanos_wall_perform]
  obtain hzero | ⟨stint, hstint, hfinish, hstart⟩ := now_schedule_eq limit entrants
  · rw [hzero]
    exact Nat.zero_le _
  · have hends (st : Stint Visit) (h : st ∈ (perform limit entrants).stints) :
        st.finish ≤ stint.finish := by
      rw [hfinish]
      exact (finish_of_mem_stints h).2.2
    have hlast := Schedule.limit_mul_finish_le hlimit hstint (hpaced.full stint hstint) hstart hends
    have hlongest : Clock.nanos (stint.finish - stint.start) ≤
        ((perform limit entrants).stints.map fun st =>
          Clock.nanos (st.finish - st.start)).foldr max 0 :=
      List.le_max_of_le' 0 (List.mem_map_of_mem hstint) (Nat.le_refl _)
    rw [← hfinish]
    calc limit * Clock.nanos stint.finish
      _ = Clock.nanos (limit * stint.finish) := Nat.mul_left_comm ..
      _ ≤ Clock.nanos (Schedule.work (perform limit entrants).stints +
          (limit - 1) * (stint.finish - stint.start)) := Nat.mul_le_mul_left _ hlast
      _ = Clock.nanos (Schedule.work (perform limit entrants).stints) +
          (limit - 1) * Clock.nanos (stint.finish - stint.start) := by
        rw [Clock.nanos, Clock.nanos, Clock.nanos, Nat.mul_add, Nat.mul_left_comm]
      _ ≤ _ := Nat.add_le_add_left (Nat.mul_le_mul_left _ hlongest) _

/-- **The makespan of a run.** Whatever its sessions meet, the outcome of each tells how long it
held its slot, and the run takes at least that long. Its slots can do the work of all sessions in
the time that it takes; and in that time they miss no more than the longest session takes on all
slots but one, for no slot is free while a session waits. A run without sessions takes no time. -/
theorem wall_bounds (requested : Nat) (entrants : List Entrant) :
    let limit := Slots.effectiveLimit requested
    let run := perform limit entrants
    let times := run.outcomes.map (·.elapsed.nanos)
    times.length = entrants.length ∧
    times = run.stints.map (fun stint => Clock.nanos (stint.finish - stint.start)) ∧
    (∀ time ∈ times, time ≤ run.wall.nanos) ∧
    times.sum ≤ limit * run.wall.nanos ∧
    limit * run.wall.nanos ≤ times.sum + (limit - 1) * times.foldr max 0 ∧
    (perform limit []).wall = .zero := by
  intro limit run times
  have hlimit : 0 < limit := Slots.effectiveLimit_pos requested
  have hpaced : Paced limit entrants run := paced_perform requested entrants
  have htimes : times = run.stints.map fun stint => Clock.nanos (stint.finish - stint.start) :=
    map_elapsed_outcomes hlimit entrants
  have hlength := (perm_entrants_perform hlimit entrants).length_eq
  rw [List.length_map] at hlength
  refine ⟨?_, htimes, ?_, ?_, ?_, ?_⟩
  · rw [htimes, List.length_map, hlength]
  · exact fun time => elapsed_le_wall hlimit
  · exact sum_elapsed_le hlimit hpaced
  · exact limit_mul_wall_le hlimit hpaced
  · exact wall_perform_nil hlimit

/-- Five sessions of a tenth of a second each share two slots, refused or broken down as they are:
the run takes three tenths, which the upper bound allows and nothing beyond. -/
theorem wall_bounds_five_for_two :
    let session (name : String) (reception : Venue.Reception) : Entrant :=
      ⟨.standard ⟨name⟩ ⟨"mock", 8888⟩ .standard,
        { Venue.Peer.quiet with delay := some 100, reception }⟩
    let entrants : List Entrant :=
      [session "a" (.refuse "no"), session "b" (.crash none), session "c" (.refuse "no"),
        session "d" (.fail (.send "no")), session "e" (.crash none)]
    let limit := Slots.effectiveLimit 2
    let run := perform limit entrants
    let times := run.outcomes.map (·.elapsed.nanos)
    limit = 2 ∧ times = List.replicate 5 (100 * Nanos.perMilli) ∧
      run.wall.nanos = 300 * Nanos.perMilli ∧ times.sum ≤ limit * run.wall.nanos ∧
      limit * run.wall.nanos ≤ times.sum + (limit - 1) * times.foldr max 0 ∧
      times.sum + (limit - 1) * times.foldr max 0 = limit * (300 * Nanos.perMilli) := by
  intro session entrants limit run times
  have hlimit : limit = 2 := by decide +kernel
  have htimes : times = List.replicate 5 (100 * Nanos.perMilli) := by decide +kernel
  have hwall : run.wall.nanos = 300 * Nanos.perMilli := by decide +kernel
  obtain ⟨-, -, -, hlower, hupper, -⟩ := wall_bounds 2 entrants
  refine ⟨hlimit, htimes, hwall, hlower, hupper, ?_⟩
  rw [htimes, hlimit]
  decide

end Run

end MarketLoad
