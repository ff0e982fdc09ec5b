import Mathlib.Data.List.Perm.Basic
import MarketLoad.Run.Schedule

/-!
# What a schedule does with its jobs

A move either ends the stint that finishes first or seats the job that waits first
(`Schedule.step_cases`), and a schedule stops only when no job holds a slot and no slot is free for
a waiting job (`Schedule.step_eq_none`). So with at least one slot every job becomes one stint
(`Schedule.perm_stints_ofJobs`), whose length is that of a job started when it was.
-/

namespace MarketLoad.Schedule

variable {α : Type} {length : Nat → α → Nat} {jobs : List α} {s s' : Schedule α} {limit : Nat}

theorem insert_perm (stint : Stint α) (stints : List (Stint α)) :
    (insert stint stints).Perm (stint :: stints) := by
  induction stints with
  | nil => exact .refl _
  | cons s rest ih =>
    simp only [insert]
    split
    · exact (ih.cons s).trans (.swap ..)
    · exact .refl _

theorem dismissBy?_eq_some {time : Nat} (h : s.dismissBy? time = some s') :
    ∃ stint holding, s.holding = stint :: holding ∧ stint.finish ≤ time ∧
      s' = s.dismiss stint holding := by
  unfold dismissBy? at h
  split at h
  · cases h
  · rename_i stint holding hh
    split at h
    · rename_i hf
      cases h
      exact ⟨stint, holding, hh, hf, rfl⟩
    · cases h

theorem seat?_eq_some (h : s.seat? length = some s') :
    ∃ job waiting, s.waiting = job :: waiting ∧ s.slots.held < s.slots.limit ∧
      s' = s.seat length { s.slots with held := s.slots.held + 1 } job waiting := by
  unfold seat? at h
  split at h
  · cases h
  · rename_i job waiting hw
    simp only [Option.map_eq_some_iff, Slots.acquire?, Option.ite_none_right_eq_some,
      Option.some.injEq] at h
    obtain ⟨_, ⟨hfree, rfl⟩, rfl⟩ := h
    exact ⟨job, waiting, hw, hfree, rfl⟩

theorem seat?_eq_none (h : s.seat? length = none) :
    s.waiting = [] ∨ s.slots.limit ≤ s.slots.held := by
  unfold seat? at h
  split at h
  · exact .inl ‹_›
  · simp only [Option.map_eq_none_iff, Slots.acquire?, ite_eq_right_iff, reduceCtorEq,
      imp_false, Nat.not_lt] at h
    exact .inr h

theorem dismissNext?_eq_some (h : s.dismissNext? = some s') :
    ∃ stint holding, s.holding = stint :: holding ∧ s' = s.dismiss stint holding := by
  unfold dismissNext? at h
  split at h
  · cases h
  · rename_i stint holding hh
    cases h
    exact ⟨stint, holding, hh, rfl⟩

/-- What one move does: the stint that finishes first ends, because it is due or because no job
can be seated, or else the job that waits first takes a slot. -/
theorem step_cases (h : s.step length = some s') :
    (∃ stint holding, s.holding = stint :: holding ∧
      (stint.finish ≤ s.now ∨ s.seat? length = none) ∧ s' = s.dismiss stint holding) ∨
    (∃ job waiting, s.waiting = job :: waiting ∧ s.slots.held < s.slots.limit ∧
      s' = s.seat length { s.slots with held := s.slots.held + 1 } job waiting) := by
  simp only [step, Option.or_eq_some_iff] at h
  rcases h with h | ⟨-, h | ⟨hn, h⟩⟩
  · obtain ⟨stint, holding, hh, hf, hs⟩ := dismissBy?_eq_some h
    exact .inl ⟨stint, holding, hh, .inl hf, hs⟩
  · exact .inr (seat?_eq_some h)
  · obtain ⟨stint, holding, hh, hs⟩ := dismissNext?_eq_some h
    exact .inl ⟨stint, holding, hh, .inr hn, hs⟩

theorem step_eq_none (h : s.step length = none) :
    s.holding = [] ∧ (s.waiting = [] ∨ s.slots.limit ≤ s.slots.held) := by
  simp only [step, Option.or_eq_none_iff] at h
  obtain ⟨-, hseat, hnext⟩ := h
  constructor
  · unfold dismissNext? at hnext
    split at hnext
    · assumption
    · cases hnext
  · exact seat?_eq_none hseat

/-- What every move keeps holds at the end of a run. -/
theorem run_induction {motive : Schedule α → Prop}
    (step : ∀ s s', s.step length = some s' → motive s → motive s') (h : motive s) :
    motive (s.run length) := by
  induction s using run.induct length with
  | case1 s hn => rwa [run, hn]
  | case2 s s' hs ih => rw [run, hs]; exact ih (step s s' hs h)

theorem step_run (length : Nat → α → Nat) (s : Schedule α) : (s.run length).step length = none := by
  induction s using run.induct length with
  | case1 s hn => rwa [run, hn]
  | case2 s s' hs ih => rwa [run, hs]

/-- Every job waits, holds a slot or is done; as many slots are held as jobs hold one; a job stays
for the time that its start makes it take; and what is done lies in the past. -/
structure Kept (length : Nat → α → Nat) (limit : Nat) (jobs : List α) (s : Schedule α) : Prop where
  jobs : (s.waiting ++ s.holding.map (·.job) ++ s.finished.map (·.job)).Perm jobs
  held : s.slots.held = s.holding.length
  limit : s.slots.limit = limit
  stay : ∀ stint ∈ s.holding ++ s.finished,
    stint.finish = stint.start + length stint.start stint.job
  past : ∀ stint ∈ s.finished, stint.finish ≤ s.now

theorem Kept.start (limit : Nat) (jobs : List α) :
    Kept length limit jobs (start limit jobs) where
  jobs := by simp [Schedule.start]
  held := rfl
  limit := rfl
  stay := by simp [Schedule.start]
  past := nofun

theorem Kept.step (h : Kept length limit jobs s) (hs : s.step length = some s') :
    Kept length limit jobs s' := by
  obtain ⟨stint, holding, hh, -, rfl⟩ | ⟨job, waiting, hw, -, rfl⟩ := step_cases hs
  · obtain ⟨hjobs, hheld, hlimit, hstay, hpast⟩ := h
    rw [hh] at hjobs hheld hstay
    refine ⟨?_, ?_, hlimit, ?_, ?_⟩
    · simp only [dismiss, List.map_cons, List.append_assoc] at hjobs ⊢
      exact (List.perm_middle.append_left _).trans hjobs
    · simp only [dismiss, Slots.release, Slots.leave, hheld, List.length_cons]; omega
    · intro st hst
      refine hstay st ?_
      simp only [dismiss, List.mem_append, List.mem_cons] at hst ⊢
      tauto
    · intro st hst
      rcases List.mem_cons.1 hst with rfl | hst
      · exact Nat.le_max_right ..
      · exact Nat.le_trans (hpast st hst) (Nat.le_max_left ..)
  · obtain ⟨hjobs, hheld, hlimit, hstay, hpast⟩ := h
    rw [hw] at hjobs
    have hins := insert_perm ⟨job, s.now, s.now + length s.now job⟩ s.holding
    refine ⟨?_, ?_, hlimit, ?_, hpast⟩
    · simp only [seat, List.append_assoc, List.cons_append] at hjobs ⊢
      refine List.Perm.trans ?_ hjobs
      have hmap := (hins.map (·.job)).append_right (s.finished.map (·.job))
      exact (hmap.append_left waiting).trans List.perm_middle
    · simp only [seat, Slots.enter, length_insert, hheld]
    · intro st hst
      simp only [seat, List.mem_append, hins.mem_iff, List.mem_cons] at hst
      rcases hst with (rfl | hst) | hst
      · rfl
      · exact hstay st (List.mem_append_left _ hst)
      · exact hstay st (List.mem_append_right _ hst)

theorem Kept.ofJobs (limit : Nat) (length : Nat → α → Nat) (jobs : List α) :
    Kept length limit jobs (ofJobs limit length jobs) :=
  run_induction (fun _ _ hs h => h.step hs) (.start limit jobs)

/-- With at least one slot, a schedule ends with all its jobs done. -/
theorem ofJobs_done (hlimit : 0 < limit) (length : Nat → α → Nat) (jobs : List α) :
    (ofJobs limit length jobs).waiting = [] ∧ (ofJobs limit length jobs).holding = [] := by
  have hkept := Kept.ofJobs limit length jobs
  obtain ⟨hholding, hwaiting⟩ := step_eq_none (step_run length (start limit jobs))
  change (ofJobs limit length jobs).holding = [] at hholding
  refine ⟨hwaiting.resolve_right ?_, hholding⟩
  change ¬ (ofJobs limit length jobs).slots.limit ≤ (ofJobs limit length jobs).slots.held
  rw [hkept.limit, hkept.held, hholding]
  exact Nat.not_le.2 hlimit

/-- A stint takes the time that its start makes its job take, and lies within the schedule. -/
theorem of_mem_stints_ofJobs {stint : Stint α} (h : stint ∈ (ofJobs limit length jobs).stints) :
    stint.finish = stint.start + length stint.start stint.job ∧
      stint.finish ≤ (ofJobs limit length jobs).now := by
  have hkept := Kept.ofJobs limit length jobs
  have hmem : stint ∈ (ofJobs limit length jobs).finished := List.mem_reverse.1 h
  exact ⟨hkept.stay stint (List.mem_append_right _ hmem), hkept.past stint hmem⟩

/-- With at least one slot, every job becomes one stint. -/
theorem perm_stints_ofJobs (hlimit : 0 < limit) (length : Nat → α → Nat) (jobs : List α) :
    ((ofJobs limit length jobs).stints.map (·.job)).Perm jobs := by
  obtain ⟨hwaiting, hholding⟩ := ofJobs_done hlimit length jobs
  have hjobs := (Kept.ofJobs limit length jobs).jobs
  rw [hwaiting, hholding] at hjobs
  exact ((List.reverse_perm _).map _).trans hjobs

end MarketLoad.Schedule
