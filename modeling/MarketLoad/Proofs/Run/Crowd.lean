import Mathlib.Data.List.Perm.Basic
import Mathlib.Data.Nat.Basic
import Mathlib.Order.MinMax
import MarketLoad.Proofs.Run.Schedule

/-!
# How crowded a schedule is

Jobs take their slots in the order of their list, and time moves on only when no job waits or no
slot is free (`Schedule.Packed`). So at any time before a job starts all slots are held
(`Schedule.crowd_of_lt_start`), and if no stint is empty the peak is reached at once
(`Schedule.le_peak_ofJobs`).
-/

namespace MarketLoad.Schedule

variable {α : Type} {length : Nat → α → Nat} {jobs : List α} {s s' : Schedule α} {limit time : Nat}
  {stints : List (Stint α)}

/-- How many of some stints hold a slot at a time. -/
def crowd (time : Nat) (stints : List (Stint α)) : Nat :=
  stints.countP fun st => st.start ≤ time ∧ time < st.finish

theorem crowd_append (time : Nat) (l₁ l₂ : List (Stint α)) :
    crowd time (l₁ ++ l₂) = crowd time l₁ + crowd time l₂ := List.countP_append

theorem crowd_eq_zero (h : ∀ st ∈ stints, time < st.start ∨ st.finish ≤ time) :
    crowd time stints = 0 := by
  apply List.countP_eq_zero.2
  intro st hst
  simp only [decide_eq_true_eq]
  have hout := h st hst
  omega

theorem crowd_eq_length (h : ∀ st ∈ stints, st.start ≤ time ∧ time < st.finish) :
    crowd time stints = stints.length :=
  List.countP_eq_length.2 fun st hst => decide_eq_true (h st hst)

theorem crowd_le_length (time : Nat) (stints : List (Stint α)) :
    crowd time stints ≤ stints.length := List.countP_le_length

theorem pairwise_insert {stint : Stint α} (h : stints.Pairwise (·.finish ≤ ·.finish)) :
    (insert stint stints).Pairwise (·.finish ≤ ·.finish) := by
  induction stints with
  | nil => exact List.pairwise_singleton ..
  | cons st rest ih =>
    obtain ⟨hfirst, hrest⟩ := List.pairwise_cons.1 h
    simp only [insert]
    split
    · rename_i hle
      refine List.pairwise_cons.2 ⟨?_, ih hrest⟩
      intro st' hst'
      rcases List.mem_cons.1 ((insert_perm stint rest).mem_iff.1 hst') with rfl | hst'
      · exact hle
      · exact hfirst st' hst'
    · rename_i hlt
      refine List.pairwise_cons.2 ⟨?_, h⟩
      intro st' hst'
      rcases List.mem_cons.1 hst' with rfl | hst'
      · exact Nat.le_of_not_le hlt
      · exact (Nat.le_of_not_le hlt).trans (hfirst st' hst')

/-- Jobs have taken slots in their order, and at every time that is past while a job waits, and
before every start, all slots are held. -/
structure Packed (limit : Nat) (jobs : List α) (s : Schedule α) : Prop where
  order : ∃ seated : List (Stint α), seated.map (·.job) ++ s.waiting = jobs ∧
    seated.Perm (s.holding ++ s.finished) ∧ seated.Pairwise (·.start ≤ ·.start)
  started : ∀ st ∈ s.holding ++ s.finished, st.start ≤ s.now
  sorted : s.holding.Pairwise (·.finish ≤ ·.finish)
  active : s.slots.active = s.holding.length
  held_le : s.slots.held ≤ limit
  crowd_le : ∀ time, crowd time (s.holding ++ s.finished) ≤ s.slots.peak
  full : ∀ time, time < s.now ∧ s.waiting ≠ [] ∨
    (∃ st ∈ s.holding ++ s.finished, time < st.start) →
      crowd time (s.holding ++ s.finished) = limit

theorem Packed.start (limit : Nat) (jobs : List α) : Packed limit jobs (start limit jobs) where
  order := ⟨[], rfl, .refl _, .nil⟩
  started := nofun
  sorted := .nil
  active := rfl
  held_le := Nat.zero_le _
  crowd_le _ := Nat.zero_le _
  full time h := by
    rcases h with ⟨hlt, -⟩ | ⟨st, hst, -⟩
    · exact absurd hlt (Nat.not_lt_zero time)
    · exact absurd hst List.not_mem_nil

/-- When a stint ends, the time that passes until then is full if a job waits. -/
theorem Packed.dismiss {stint : Stint α} {holding : List (Stint α)} (h : Packed limit jobs s)
    (hkept : Kept length limit jobs s) (hholding : s.holding = stint :: holding)
    (hdue : stint.finish ≤ s.now ∨ s.seat? length = none) :
    Packed limit jobs (s.dismiss stint holding) := by
  have hperm : (holding ++ stint :: s.finished).Perm (s.holding ++ s.finished) := by
    rw [hholding]
    exact List.perm_middle
  have hcrowd (time : Nat) : crowd time (holding ++ stint :: s.finished) =
      crowd time (s.holding ++ s.finished) := hperm.countP_eq _
  obtain ⟨seated, hjobs, hseated, hordered⟩ := h.order
  have hsorted := h.sorted
  have hactive := h.active
  have hheld := hkept.held
  rw [hholding] at hsorted hactive
  refine
    { order := ⟨seated, hjobs, hseated.trans hperm.symm, hordered⟩
      started := fun st hst => (h.started st (hperm.mem_iff.1 hst)).trans (Nat.le_max_left ..)
      sorted := (List.pairwise_cons.1 hsorted).2
      active := by simp only [Schedule.dismiss, Slots.release, Slots.leave, hactive]; rfl
      held_le := (Nat.sub_le ..).trans h.held_le
      crowd_le := fun time => (hcrowd time).trans_le (h.crowd_le time)
      full := ?_ }
  intro time hfull
  refine (hcrowd time).trans ?_
  rcases hfull with ⟨hlt, hwaiting⟩ | ⟨st, hst, hlt⟩
  · by_cases hpast : time < s.now
    · exact h.full time (.inl ⟨hpast, hwaiting⟩)
    have hnow := Nat.le_of_not_lt hpast
    have hbefore : time < stint.finish := (lt_max_iff.1 hlt).resolve_left hpast
    -- Time moves on, so no job could be seated, and all slots are held by stints that go on.
    have hseat := seat?_eq_none (hdue.resolve_left fun hle => by omega)
    have hlimit := (hseat.resolve_left hwaiting)
    have hholds (st : Stint α) (hst : st ∈ s.holding) : st.start ≤ time ∧ time < st.finish := by
      refine ⟨(h.started st (List.mem_append_left _ hst)).trans hnow, ?_⟩
      rw [hholding] at hst
      rcases List.mem_cons.1 hst with rfl | hst
      · exact hbefore
      · exact hbefore.trans_le ((List.pairwise_cons.1 hsorted).1 st hst)
    have hover (st : Stint α) (hst : st ∈ s.finished) : time < st.start ∨ st.finish ≤ time :=
      .inr ((hkept.past st hst).trans hnow)
    rw [crowd_append, crowd_eq_length hholds, crowd_eq_zero hover, Nat.add_zero, ← hheld]
    exact Nat.le_antisymm h.held_le (hkept.limit ▸ hlimit)
  · exact h.full time (.inr ⟨st, hperm.mem_iff.1 hst, hlt⟩)

/-- A job that takes a slot starts after all that is past. -/
theorem Packed.seat {job : α} {waiting : List α} (h : Packed limit jobs s)
    (hkept : Kept length limit jobs s) (hwaiting : s.waiting = job :: waiting)
    (hfree : s.slots.held < s.slots.limit) :
    Packed limit jobs
      (s.seat length { s.slots with held := s.slots.held + 1 } job waiting) := by
  have hinsert := insert_perm ⟨job, s.now, s.now + length s.now job⟩ s.holding
  generalize hstint : (⟨job, s.now, s.now + length s.now job⟩ : Stint α) = stint at hinsert
  have hnow : stint.start = s.now := by rw [← hstint]
  have hperm := hinsert.append_right s.finished
  have hcrowd (time : Nat) : crowd time (insert stint s.holding ++ s.finished) =
      crowd time [stint] + crowd time (s.holding ++ s.finished) := by
    rw [← crowd_append]
    exact hperm.countP_eq _
  have hbefore (time : Nat) (hlt : time < s.now) :
      crowd time (insert stint s.holding ++ s.finished) =
        crowd time (s.holding ++ s.finished) := by
    rw [hcrowd, crowd_eq_zero fun st hst => .inl (by rw [List.mem_singleton.1 hst]; omega),
      Nat.zero_add]
  obtain ⟨seated, hjobs, hseated, hordered⟩ := h.order
  have hstarted (st : Stint α) (hst : st ∈ seated) : st.start ≤ s.now :=
    h.started st (hseated.mem_iff.1 hst)
  unfold Schedule.seat
  rw [hstint]
  refine
    { order := ⟨seated ++ [stint], ?_, ?_, ?_⟩
      started := ?_
      sorted := pairwise_insert h.sorted
      active := by simp only [Slots.enter, length_insert, h.active]
      held_le := hkept.limit ▸ hfree
      crowd_le := ?_
      full := ?_ }
  · rw [← hjobs, hwaiting, List.map_append, List.append_assoc, ← hstint]
    rfl
  · exact List.perm_append_comm.trans ((hseated.cons stint).trans hperm.symm)
  · refine List.pairwise_append.2 ⟨hordered, List.pairwise_singleton .., ?_⟩
    intro st hst st' hst'
    rw [List.mem_singleton.1 hst', hnow]
    exact hstarted st hst
  · intro st hst
    rcases List.mem_cons.1 (hperm.mem_iff.1 hst) with rfl | hst
    · exact hnow.le
    · exact h.started st hst
  · intro time
    by_cases hlt : time < s.now
    · rw [hbefore time hlt]
      exact (h.crowd_le time).trans (Nat.le_max_left ..)
    have hover (st : Stint α) (hst : st ∈ s.finished) : time < st.start ∨ st.finish ≤ time :=
      .inr ((hkept.past st hst).trans (Nat.le_of_not_lt hlt))
    have hone := crowd_le_length time [stint]
    have hholding := crowd_le_length time s.holding
    have hactive := h.active
    rw [hcrowd, crowd_append, crowd_eq_zero hover]
    refine le_trans ?_ (Nat.le_max_right ..)
    dsimp only [List.length_singleton] at hone ⊢
    omega
  · intro time hfull
    have hlt : time < s.now := by
      rcases hfull with ⟨hlt, -⟩ | ⟨st, hst, hlt⟩
      · exact hlt
      · rcases List.mem_cons.1 (hperm.mem_iff.1 hst) with rfl | hst
        · exact hnow ▸ hlt
        · exact hlt.trans_le (h.started st hst)
    have hwaits : s.waiting ≠ [] := by rw [hwaiting]; exact List.cons_ne_nil _ _
    exact (hbefore time hlt).trans (h.full time (.inl ⟨hlt, hwaits⟩))

theorem Packed.step (h : Packed limit jobs s) (hkept : Kept length limit jobs s)
    (hs : s.step length = some s') : Packed limit jobs s' := by
  obtain ⟨stint, holding, hholding, hdue, rfl⟩ | ⟨job, waiting, hwaiting, hfree, rfl⟩ :=
    step_cases hs
  · exact h.dismiss hkept hholding hdue
  · exact h.seat hkept hwaiting hfree

/-- What every step of a kept and packed schedule keeps holds at the end, as these two do. -/
theorem packed_induction (length : Nat → α → Nat) {motive : Schedule α → Prop}
    (hstep : ∀ s s', Kept length limit jobs s → Packed limit jobs s → s.step length = some s' →
      motive s → motive s')
    (hstart : motive (start limit jobs)) :
    Packed limit jobs (ofJobs limit length jobs) ∧ motive (ofJobs limit length jobs) := by
  have hall : Kept length limit jobs (ofJobs limit length jobs) ∧
      Packed limit jobs (ofJobs limit length jobs) ∧ motive (ofJobs limit length jobs) := by
    apply run_induction (motive := fun s =>
      Kept length limit jobs s ∧ Packed limit jobs s ∧ motive s)
    · rintro s s' hs ⟨hkept, hpacked, h⟩
      exact ⟨hkept.step hs, hpacked.step hkept hs, hstep s s' hkept hpacked hs h⟩
    · exact ⟨.start limit jobs, .start limit jobs, hstart⟩
  exact hall.2

theorem Packed.ofJobs (limit : Nat) (length : Nat → α → Nat) (jobs : List α) :
    Packed limit jobs (ofJobs limit length jobs) :=
  (packed_induction length (motive := fun _ => True) (fun _ _ _ _ _ _ => trivial) trivial).1

/-! ### Schedules that are done -/

/-- Jobs take their slots in the order of their list. -/
theorem exists_seated (hlimit : 0 < limit) (length : Nat → α → Nat) (jobs : List α) :
    ∃ seated : List (Stint α), seated.map (·.job) = jobs ∧
      seated.Perm (ofJobs limit length jobs).stints ∧ seated.Pairwise (·.start ≤ ·.start) := by
  obtain ⟨hwaiting, hholding⟩ := ofJobs_done hlimit length jobs
  obtain ⟨seated, hjobs, hperm, hordered⟩ := (Packed.ofJobs limit length jobs).order
  rw [hwaiting, List.append_nil] at hjobs
  rw [hholding, List.nil_append] at hperm
  exact ⟨seated, hjobs, hperm.trans (List.reverse_perm _).symm, hordered⟩

theorem crowd_stints_ofJobs (hlimit : 0 < limit) (length : Nat → α → Nat) (jobs : List α)
    (time : Nat) :
    crowd time (ofJobs limit length jobs).stints =
      crowd time ((ofJobs limit length jobs).holding ++ (ofJobs limit length jobs).finished) := by
  rw [(ofJobs_done hlimit length jobs).2]
  exact (List.reverse_perm _).countP_eq _

theorem crowd_le_peak_ofJobs (hlimit : 0 < limit) (length : Nat → α → Nat) (jobs : List α)
    (time : Nat) :
    crowd time (ofJobs limit length jobs).stints ≤ (ofJobs limit length jobs).slots.peak :=
  (crowd_stints_ofJobs hlimit length jobs time).trans_le
    ((Packed.ofJobs limit length jobs).crowd_le time)

/-- As long as a job has not started, all slots are held. -/
theorem crowd_of_lt_start (hlimit : 0 < limit) {stint : Stint α}
    (h : stint ∈ (ofJobs limit length jobs).stints) (hlt : time < stint.start) :
    crowd time (ofJobs limit length jobs).stints = limit := by
  refine (crowd_stints_ofJobs hlimit length jobs time).trans ?_
  refine (Packed.ofJobs limit length jobs).full time (.inr ⟨stint, ?_, hlt⟩)
  exact List.mem_append_right _ (List.mem_reverse.1 h)

/-- If no stint is empty, as many jobs hold slots at once as there are jobs, or all slots are held.
-/
theorem le_peak_ofJobs (hlimit : 0 < limit)
    (h : ∀ stint ∈ (ofJobs limit length jobs).stints, stint.start < stint.finish) :
    min jobs.length limit ≤ (ofJobs limit length jobs).slots.peak := by
  have hpeak := crowd_le_peak_ofJobs hlimit length jobs 0
  by_cases hlate : ∃ stint ∈ (ofJobs limit length jobs).stints, 0 < stint.start
  · obtain ⟨stint, hstint, hlt⟩ := hlate
    rw [crowd_of_lt_start hlimit hstint hlt] at hpeak
    exact (Nat.min_le_right ..).trans hpeak
  · push Not at hlate
    have hall := crowd_eq_length fun stint hstint =>
      (⟨hlate stint hstint, (Nat.zero_le _).trans_lt (h stint hstint)⟩ :
        stint.start ≤ 0 ∧ 0 < stint.finish)
    have hlength := (perm_stints_ofJobs hlimit length jobs).length_eq
    rw [List.length_map] at hlength
    rw [hall, hlength] at hpeak
    exact (Nat.min_le_left ..).trans hpeak

end MarketLoad.Schedule
