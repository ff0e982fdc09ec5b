import MarketLoad.Proofs.Run.Perform
import MarketLoad.Proofs.Session.ClockEnd
import MarketLoad.Proofs.Session.Later

/-!
# Sessions do not affect each other

What a session comes to in a run is what it comes to by itself (`Entrant.alone`), whatever the limit
of the run, the order of its sessions and the sessions beside it; only the clock's end shows how late
the session took its slot (`Run.outcomes_isolated`).
-/

namespace MarketLoad

open Venue

/-- What a session comes to by itself. -/
def Entrant.alone (e : Entrant) : Outcome := (Visit.ofEntrant 0 e).outcome

theorem Course.outcome_later (trader : Trader) (t : Nat) (c : Course) :
    (c.later t).outcome trader = c.outcome trader := by
  have helapsed : (c.later t).elapsed = c.elapsed :=
    congrArg Span.ofMillis (Nat.add_sub_add_right ..)
  rw [outcome, outcome, helapsed]
  rfl

namespace Visit

/-- A visit delivers what the session comes to by itself, or meets the end of the clock. -/
theorem outcome_ofEntrant (start : Nat) (e : Entrant) :
    (ofEntrant start e).outcome = e.alone ∨
      (ofEntrant start e).course.result = .error .clockOverflow := by
  obtain h | h := Session.course_later (t := start) (s := e.settings) 0 e.peer
  · rw [Nat.zero_add] at h
    refine .inl ?_
    rw [outcome, ofEntrant, h]
    exact Course.outcome_later ..
  · rw [Nat.zero_add] at h
    exact .inr h

end Visit

namespace Run

variable {limit : Nat} {entrants : List Entrant} {stint : Stint Visit}

/-- A session of a run delivers what it comes to by itself, or meets the end of the clock, which is
then near. -/
theorem outcome_of_mem_stints (h : stint ∈ (perform limit entrants).stints) :
    stint.job.outcome = stint.job.entrant.alone ∨
      stint.job.outcome = .untraded stint.job.entrant.settings.trader
          (.ofMillis (stint.finish - stint.start)) (.worker Fault.clockOverflow.message) ∧
        Clock.horizon ≤ Clock.nanos stint.finish + stint.job.entrant.settings.reach := by
  have hjob := job_of_mem_stints h
  obtain ⟨hlength, hfinish, -⟩ := finish_of_mem_stints h
  obtain halone | hover := Visit.outcome_ofEntrant stint.start stint.job.entrant
  · rw [← hjob] at halone
    exact .inl halone
  · rw [← hjob] at hover
    refine .inr ⟨?_, ?_⟩
    · rw [hlength, Visit.outcome, Course.outcome, hover]
      rfl
    · rw [hjob] at hover hfinish
      have hend := Session.horizon_le_of_clockOverflow hover
      have hnanos : Clock.nanos (Visit.ofEntrant stint.start stint.job.entrant).course.finish ≤
          Clock.nanos stint.finish := Nat.mul_le_mul_left _ hfinish
      exact Nat.le_trans hend (Nat.add_le_add_right hnanos _)

/-- The end of the clock is out of the reach of a run's sessions. -/
def WithinClock (limit : Nat) (entrants : List Entrant) : Prop :=
  ∀ e ∈ entrants, (perform limit entrants).wall.nanos + e.settings.reach < Clock.horizon

theorem outcome_of_withinClock (hlimit : 0 < limit) (hclock : WithinClock limit entrants)
    (h : stint ∈ (perform limit entrants).stints) :
    stint.job.outcome = stint.job.entrant.alone := by
  refine (outcome_of_mem_stints h).resolve_right fun ⟨_, hend⟩ => ?_
  have hmem : stint.job.entrant ∈ entrants :=
    (perm_entrants_perform hlimit entrants).mem_iff.1 (List.mem_map_of_mem h)
  have hwall := hclock _ hmem
  obtain ⟨-, -, hnow⟩ := finish_of_mem_stints h
  have hnanos : Clock.nanos stint.finish ≤ Clock.nanos (schedule limit entrants).now :=
    Nat.mul_le_mul_left _ hnow
  have hlong : Clock.horizon ≤ UInt64.size * Nanos.perSecond - 1 := by decide
  rw [wall_perform] at hwall
  simp only [Span.ofMillis] at hwall
  simp only [Clock.nanos] at hnanos hend
  omega

theorem perm_alone_of_withinClock (hlimit : 0 < limit) (hclock : WithinClock limit entrants) :
    (perform limit entrants).outcomes.Perm (entrants.map (·.alone)) := by
  have hentrants := (perm_entrants_perform hlimit entrants).map Entrant.alone
  rw [List.map_map] at hentrants
  rw [outcomes_perform hlimit]
  refine .trans (.of_eq (List.map_congr_left fun stint hs => ?_)) hentrants
  exact outcome_of_withinClock hlimit hclock hs

/-- Every session of a run is visited once and delivers what it comes to by itself; one that took
its slot late enough to be near the end of the clock may instead break there. Away from the end of
the clock, the outcomes do not depend on the limit, on the order of the sessions or on the time at
which each got its slot. -/
theorem outcomes_isolated (requested : Nat) (entrants : List Entrant) :
    let run := perform (Slots.effectiveLimit requested) entrants
    (run.stints.map (·.job.entrant)).Perm entrants ∧
    run.outcomes = run.stints.map (·.job.outcome) ∧
    (∀ stint ∈ run.stints,
      stint.job.outcome = stint.job.entrant.alone ∨
        stint.job.outcome = .untraded stint.job.entrant.settings.trader
            (.ofMillis (stint.finish - stint.start)) (.worker Fault.clockOverflow.message) ∧
          Clock.horizon ≤ Clock.nanos stint.finish + stint.job.entrant.settings.reach) ∧
    (WithinClock (Slots.effectiveLimit requested) entrants →
      run.outcomes.Perm (entrants.map (·.alone)) ∧
      ∀ (requested' : Nat) (entrants' : List Entrant), entrants'.Perm entrants →
        WithinClock (Slots.effectiveLimit requested') entrants' →
        (perform (Slots.effectiveLimit requested') entrants').outcomes.Perm run.outcomes) := by
  have hlimit (requested : Nat) : 0 < Slots.effectiveLimit requested :=
    Nat.lt_of_lt_of_le Nat.one_pos (Nat.le_max_left ..)
  refine ⟨perm_entrants_perform (hlimit _) entrants, outcomes_perform (hlimit _) entrants,
    fun _ => outcome_of_mem_stints, fun hclock => ?_⟩
  have halone := perm_alone_of_withinClock (hlimit _) hclock
  refine ⟨halone, fun requested' entrants' hperm hclock' => ?_⟩
  have halone' := perm_alone_of_withinClock (hlimit _) hclock'
  exact halone'.trans ((hperm.map _).trans halone.symm)

/-- The settings of a session without orders to send. -/
private def idle (name : String) (duration interval : Span) : SessionSettings :=
  { SessionSettings.standard ⟨name⟩ ⟨"mock", 8888⟩ ⟨[]⟩ with duration, interval }

/-- A server that acknowledges at once. -/
private def acknowledging : Peer :=
  { Peer.quiet with delay := some 1, fallback := .habit .acknowledge 0 }

/-- Two sessions, one of them refused and one hanging until its deadline, in one slot and in two. -/
theorem outcomes_isolated_two :
    let refused : Entrant := ⟨idle "a" (.ofMillis 10) (.ofMillis 0), Peer.unreachable⟩
    let hanging : Entrant := ⟨idle "b" (.ofMillis 10) (.ofMillis 0), { Peer.quiet with delay := none }⟩
    WithinClock (Slots.effectiveLimit 1) [refused, hanging] ∧
      WithinClock (Slots.effectiveLimit 2) [hanging, refused] ∧
      (perform (Slots.effectiveLimit 2) [hanging, refused]).outcomes.Perm
        (perform (Slots.effectiveLimit 1) [refused, hanging]).outcomes := by
  intro refused hanging
  have hone : WithinClock (Slots.effectiveLimit 1) [refused, hanging] := by
    unfold WithinClock
    decide +kernel
  have htwo : WithinClock (Slots.effectiveLimit 2) [hanging, refused] := by
    unfold WithinClock
    decide +kernel
  exact ⟨hone, htwo,
    ((outcomes_isolated 1 [refused, hanging]).2.2.2 hone).2 2 [hanging, refused] (.swap ..) htwo⟩

/-- A window that almost reaches the end of the clock fits a session that takes its slot at once,
but not one that takes it after a sibling of nineteen years. -/
theorem late_slot_meets_clock_end :
    let long : Entrant :=
      ⟨idle "a" (.ofMillis 600000000000) (.ofMillis 600000000000), acknowledging⟩
    let wide : Entrant :=
      ⟨idle "b" ⟨9223372036554775807 * Nanos.perSecond, by decide⟩ .zero, acknowledging⟩
    (perform 1 [long, wide]).outcomes =
        [long.alone, .untraded ⟨"b"⟩ (.ofMillis 1) (.worker Fault.clockOverflow.message)] ∧
      (perform 2 [long, wide]).outcomes = [wide.alone, long.alone] ∧
      wide.alone.success = true ∧
      ¬ (perform 1 [long, wide]).outcomes.Perm (perform 2 [long, wide]).outcomes := by
  decide +kernel

end Run

end MarketLoad
