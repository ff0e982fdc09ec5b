import Mathlib.Data.List.Forall2
import MarketLoad.Proofs.Run.Crowd
import MarketLoad.Proofs.Run.Gate
import MarketLoad.Proofs.Run.Perform

/-!
# The slots of a run

A run on the clock is one of the runs of turns of its gate (`Run.exists_turns`), so its sessions
keep to its slots, and it keeps its slots busy (`Run.Paced`).
-/

namespace MarketLoad

namespace Gate

variable {requested n m place : Nat} {g : Gate}

/-- All sessions ask for a slot, one after the other. -/
theorem exists_run?_ask (requested n m : Nat) (hle : m ≤ n) :
    ∃ g, (start requested n).run? ((List.range m).map .ask) = some g ∧ g.sessions = n ∧
      (∀ p, g.stage p = if p < m then .asked else .coming) ∧ g.slots.active = 0 ∧
      g.slots.peak = 0 := by
  induction m with
  | zero => exact ⟨_, rfl, rfl, fun p => (if_neg (Nat.not_lt_zero p)).symm, rfl, rfl⟩
  | succ m ih =>
    obtain ⟨g, hrun, hsessions, hstage, hactive, hpeak⟩ := ih (Nat.le_of_succ_le hle)
    have hcoming : m < g.sessions ∧ g.stage m = .coming :=
      ⟨hsessions.symm ▸ hle, (hstage m).trans (if_neg (Nat.lt_irrefl m))⟩
    obtain ⟨hstage', hsessions', hactive', hpeak'⟩ :=
      letIn_frame { g.move m .asked with queue := g.queue ++ [m] }
    refine ⟨_, ?_, hsessions'.trans hsessions, fun p => ?_, hactive'.trans hactive,
      hpeak'.trans hpeak⟩
    · rw [List.range_succ, List.map_append, run?_append, hrun]
      simp only [List.map_singleton, Option.bind_some, run?, step?, if_pos hcoming]
    · rw [hstage']
      by_cases hp : p = m
      · rw [hp, if_pos (Nat.lt_succ_self m)]
        exact stage_move_self ..
      · refine (stage_move_of_ne hp ..).trans ((hstage p).trans ?_)
        refine if_congr (Nat.lt_succ_iff.trans ?_).symm rfl rfl
        omega

/-- A session that runs ends and gives everything back. -/
theorem exists_run?_finish (h : g.stage place = .inside) (ending : Ending) :
    ∃ g', g.run? [.finish place ending, .drop place .count, .drop place .slot] = some g' ∧
      (∀ p, g'.stage p = if p = place then .ended [] else g.stage p) ∧
      g'.slots.active = g.slots.active - 1 ∧ g'.slots.peak = g.slots.peak := by
  let g₁ := g.move place (.ended [.count, .slot])
  let g₂ : Gate := { g₁.move place (.ended [.slot]) with slots := g.slots.leave }
  let g₃ : Gate := { g₂.move place (.ended []) with slots := g₂.slots.release }
  have hended₁ : g₁.stage place = .ended [.count, .slot] := stage_move_self ..
  have hended₂ : g₂.stage place = .ended [.slot] := stage_move_self g₁ place _
  have h₁ : g.step? (.finish place ending) = some g₁ := if_pos h
  have h₂ : g₁.step? (.drop place .count) = some g₂ := by
    simp only [step?, hended₁]
    exact if_pos trivial
  have h₃ : g₂.step? (.drop place .slot) = some (letIn g₃) := by
    simp only [step?, hended₂]
    exact if_pos trivial
  obtain ⟨hstage, -, hactive, hpeak⟩ := letIn_frame g₃
  refine ⟨letIn g₃, ?_, fun p => ?_, hactive, hpeak⟩
  · simp only [run?, h₁, h₂, h₃, Option.bind_some]
  · rw [hstage]
    by_cases hp : p = place
    · rw [if_pos hp, hp]
      exact stage_move_self g₂ place _
    · rw [if_neg hp]
      exact (stage_move_of_ne hp g₂ _).trans
        ((stage_move_of_ne hp g₁ _).trans (stage_move_of_ne hp g _))

/-- A session that has a slot is counted and runs. -/
theorem exists_run?_enter (h : g.stage place = .asked) (hnot : place ∉ g.queue) :
    ∃ g', g.run? [.enter place] = some g' ∧
      (∀ p, g'.stage p = if p = place then .inside else g.stage p) ∧
      g'.slots.active = g.slots.active + 1 ∧
      g'.slots.peak = max g.slots.peak (g.slots.active + 1) :=
  ⟨{ g.move place .inside with slots := g.slots.enter },
    by simp only [run?, step?, if_pos (And.intro h hnot), Option.bind_some], fun _ => rfl, rfl, rfl⟩

end Gate

namespace Run

variable {requested : Nat} {entrants : List Entrant} {s s' : Schedule Entrant} {g : Gate}
  {turns : List Turn} {places : List Nat} {seated : Nat}

/-- The length of a session's stint. -/
private abbrev stay (start : Nat) (e : Entrant) : Nat := (Visit.ofEntrant start e).length

/-- Turns of a run's gate in which all sessions ask in the order of the list, and those that end
deliver what they deliver on the clock. -/
private structure Recorded (requested : Nat) (entrants : List Entrant) (turns : List Turn)
    (g : Gate) (sent : List Outcome) : Prop where
  reached : (Gate.start requested entrants.length).run? turns = some g
  asked : turns.filterMap Turn.asks? = List.range entrants.length
  sent : turns.filterMap Turn.outcome? = sent
  sends : ∀ place ending, .finish place ending ∈ turns → ∃ e start, entrants[place]? = some e ∧
    ending = .sends (Visit.ofEntrant start e).outcome

private theorem Recorded.append {sent : List Outcome} {more : List Turn} {g' : Gate}
    (h : Recorded requested entrants turns g sent) (hrun : g.run? more = some g')
    (hasks : more.filterMap Turn.asks? = [])
    (hsends : ∀ place ending, .finish place ending ∈ more → ∃ e start, entrants[place]? = some e ∧
      ending = .sends (Visit.ofEntrant start e).outcome) :
    Recorded requested entrants (turns ++ more) g' (sent ++ more.filterMap Turn.outcome?) where
  reached := by rw [Gate.run?_append, h.reached, Option.bind_some, hrun]
  asked := by rw [List.filterMap_append, h.asked, hasks, List.append_nil]
  sent := by rw [List.filterMap_append, h.sent]
  sends place ending hmem := (List.mem_append.1 hmem).elim (h.sends place ending)
    (hsends place ending)

/-- A gate in the state of a schedule, after some turns: all sessions have asked, those of the
stints that hold slots run, at these places, and those of the stints that are done have ended. -/
private structure Follows (requested : Nat) (entrants : List Entrant) (s : Schedule Entrant)
    (turns : List Turn) (g : Gate) (places : List Nat) (seated : Nat) : Prop where
  recorded : Recorded requested entrants turns g
    (s.stints.map fun stint => (Visit.ofEntrant stint.start stint.job).outcome)
  waiting : s.waiting = entrants.drop seated
  holding : List.Forall₂ (fun place stint => entrants[place]? = some stint.job) places s.holding
  nodup : places.Nodup
  lt : ∀ p ∈ places, p < seated
  stage : ∀ p, g.stage p =
    if p ∈ places then .inside
    else if p < seated then .ended []
    else if p < entrants.length then .asked else .coming
  active : g.slots.active = s.slots.active
  peak : g.slots.peak = s.slots.peak

private theorem exists_forall₂_insert {R : Nat → Stint Entrant → Prop} {place : Nat}
    {stints : List (Stint Entrant)} (h : List.Forall₂ R places stints) (stint : Stint Entrant)
    (hstint : R place stint) :
    ∃ places', List.Forall₂ R places' (Schedule.insert stint stints) ∧
      places'.Perm (place :: places) := by
  induction h with
  | nil => exact ⟨[place], .cons hstint .nil, .refl _⟩
  | @cons p st places stints hfirst hrest ih =>
    simp only [Schedule.insert]
    split
    · obtain ⟨places', hplaces', hperm⟩ := ih
      exact ⟨p :: places', .cons hfirst hplaces', (hperm.cons p).trans (.swap ..)⟩
    · exact ⟨place :: p :: places, .cons hstint (.cons hfirst hrest), .refl _⟩

private theorem exists_follows_start (requested : Nat) (entrants : List Entrant) :
    ∃ turns g, Follows requested entrants
      (.start (Slots.effectiveLimit requested) entrants) turns g [] 0 := by
  obtain ⟨g, hrun, -, hstage, hactive, hpeak⟩ :=
    Gate.exists_run?_ask requested entrants.length entrants.length (Nat.le_refl _)
  have hrecorded : Recorded requested entrants ((List.range entrants.length).map .ask) g [] := by
    refine ⟨hrun, ?_, ?_, ?_⟩
    · rw [List.filterMap_map]
      exact List.filterMap_some
    · rw [List.filterMap_map]
      exact List.filterMap_eq_nil_iff.2 fun _ _ => rfl
    · intro place ending hmem
      obtain ⟨p, -, hp⟩ := List.mem_map.1 hmem
      cases hp
  refine ⟨_, g, hrecorded, rfl, .nil, .nil, nofun, ?_, hactive, hpeak⟩
  intro p
  rw [hstage, if_neg List.not_mem_nil, if_neg (Nat.not_lt_zero p)]

/-- A stint that ends is a session that ends and gives everything back. -/
private theorem Follows.dismiss {stint : Stint Entrant} {holding : List (Stint Entrant)}
    (h : Follows requested entrants s turns g places seated)
    (hholding : s.holding = stint :: holding) :
    ∃ turns' g' places',
      Follows requested entrants (s.dismiss stint holding) turns' g' places' seated := by
  have haligned := h.holding
  rw [hholding] at haligned
  obtain ⟨place, places, hjob, hrest, rfl⟩ := List.forall₂_cons_right_iff.1 haligned
  obtain ⟨hnew, hnodup⟩ := List.nodup_cons.1 h.nodup
  obtain ⟨hplace, hlt⟩ := List.forall_mem_cons.1 h.lt
  have hinside : g.stage place = .inside := (h.stage place).trans (if_pos List.mem_cons_self)
  let ending : Ending := .sends (Visit.ofEntrant stint.start stint.job).outcome
  obtain ⟨g', hrun, hstage, hactive, hpeak⟩ := Gate.exists_run?_finish hinside ending
  have hrecorded := h.recorded.append hrun rfl (by
    intro q ending' hmem
    obtain ⟨rfl, rfl⟩ : q = place ∧ ending' = ending := by simpa using hmem
    exact ⟨stint.job, stint.start, hjob, rfl⟩)
  have hstints : (s.dismiss stint holding).stints = s.stints ++ [stint] := List.reverse_cons
  refine ⟨turns ++ [.finish place ending, .drop place .count, .drop place .slot], g', places,
    { recorded := ?_, waiting := h.waiting, holding := hrest, nodup := hnodup, lt := hlt,
      stage := ?_, active := ?_, peak := hpeak.trans h.peak }⟩
  · rw [hstints, List.map_append]
    exact hrecorded
  · intro p
    rw [hstage]
    by_cases hp : p = place
    · rw [if_pos hp, hp, if_neg hnew, if_pos hplace]
    · rw [if_neg hp, h.stage]
      simp only [List.mem_cons, or_iff_right hp]
  · rw [hactive, h.active]
    rfl

/-- While fewer sessions are counted than there are slots, the next one has its slot already. -/
private theorem Follows.not_mem_queue (h : Follows requested entrants s turns g places seated)
    (hactive : s.slots.active < Slots.effectiveLimit requested) : seated ∉ g.queue := by
  intro hwaits
  obtain ⟨taken, hkept⟩ := (Gate.Kept.start requested entrants.length).run h.recorded.reached
  rw [List.nil_append] at hkept
  have hbefore (q : Nat) (hq : q ∈ taken) : q < seated := by
    have hordered : (taken ++ g.queue).Pairwise (· < ·) := by
      rw [← hkept.order, h.recorded.asked]
      exact List.pairwise_lt_range
    exact (List.pairwise_append.1 hordered).2.2 q hq seated hwaits
  -- Those that have taken a slot run or have given it back, so they owe as many slots as counts.
  have hsame : g.slots.held = g.slots.active := by
    rw [hkept.held, hkept.active]
    refine congrArg List.sum (List.map_congr_left fun q hq => ?_)
    rw [h.stage q]
    split
    · rfl
    · rw [if_pos (hbefore q hq)]
      rfl
  have hfull := hkept.full (List.ne_nil_of_mem hwaits)
  rw [hkept.limit, hsame, h.active] at hfull
  exact absurd hfull hactive.ne

/-- A job that is seated is a session that has its slot already and is now counted. -/
private theorem Follows.seat {job : Entrant} {waiting : List Entrant}
    (h : Follows requested entrants s turns g places seated) (hwaiting : s.waiting = job :: waiting)
    (hactive : s.slots.active < Slots.effectiveLimit requested) :
    ∃ turns' g' places', Follows requested entrants
      (s.seat stay { s.slots with held := s.slots.held + 1 } job waiting) turns' g' places'
        (seated + 1) := by
  have hdrop : entrants.drop seated = job :: waiting := h.waiting.symm.trans hwaiting
  have hlt : seated < entrants.length := by
    by_contra hge
    rw [List.drop_of_length_le (Nat.le_of_not_lt hge)] at hdrop
    cases hdrop
  rw [List.drop_eq_getElem_cons hlt] at hdrop
  obtain ⟨rfl, rfl⟩ := List.cons_eq_cons.1 hdrop
  have hnew : seated ∉ places := fun hm => Nat.lt_irrefl _ (h.lt seated hm)
  have hasked : g.stage seated = .asked := by
    rw [h.stage, if_neg hnew, if_neg (Nat.lt_irrefl _), if_pos hlt]
  obtain ⟨g', hrun, hstage, hactive', hpeak⟩ :=
    Gate.exists_run?_enter hasked (h.not_mem_queue hactive)
  obtain ⟨places', haligned, hperm⟩ := exists_forall₂_insert h.holding
    ⟨entrants[seated], s.now, s.now + stay s.now entrants[seated]⟩ (List.getElem?_eq_getElem hlt)
  have hrecorded := h.recorded.append hrun rfl (by
    intro q ending hmem
    cases List.mem_singleton.1 hmem)
  refine ⟨turns ++ [.enter seated], g', places',
    { recorded := List.append_nil _ ▸ hrecorded, waiting := rfl, holding := haligned,
      nodup := hperm.nodup_iff.2 (List.nodup_cons.2 ⟨hnew, h.nodup⟩), lt := ?_, stage := ?_,
      active := ?_, peak := ?_ }⟩
  · intro p hp
    rcases List.mem_cons.1 (hperm.mem_iff.1 hp) with rfl | hp
    · exact Nat.lt_succ_self _
    · exact Nat.lt_succ_of_lt (h.lt p hp)
  · intro p
    rw [hstage]
    simp only [hperm.mem_iff, List.mem_cons]
    by_cases hp : p = seated
    · rw [if_pos hp, if_pos (.inl hp)]
    · have hnext : p < seated + 1 ↔ p < seated := by omega
      rw [if_neg hp, h.stage]
      simp only [or_iff_right hp, hnext]
  · rw [hactive', h.active]
    rfl
  · rw [hpeak, h.peak, h.active]
    rfl

/-- Some turns of the gate follow the schedule to its end. -/
private theorem exists_follows (requested : Nat) (entrants : List Entrant) :
    ∃ turns g places seated, Follows requested entrants
      (schedule (Slots.effectiveLimit requested) entrants) turns g places seated := by
  refine (Schedule.packed_induction stay (motive := fun s =>
    ∃ turns g places seated, Follows requested entrants s turns g places seated) ?_ ?_).2
  · rintro s s' hkept hpacked hs ⟨turns, g, places, seated, h⟩
    obtain ⟨stint, holding, hholding, -, rfl⟩ | ⟨job, waiting, hwaiting, hfree, rfl⟩ :=
      Schedule.step_cases hs
    · obtain ⟨turns', g', places', h'⟩ := h.dismiss hholding
      exact ⟨turns', g', places', seated, h'⟩
    · rw [hkept.held, ← hpacked.active, hkept.limit] at hfree
      obtain ⟨turns', g', places', h'⟩ := h.seat hwaiting hfree
      exact ⟨turns', g', places', seated + 1, h'⟩
  · obtain ⟨turns, g, h⟩ := exists_follows_start requested entrants
    exact ⟨turns, g, [], 0, h⟩

/-- Every session asks for a slot, in the order of the list; they end as they do on the clock, and
the greatest count of active sessions is that of the run. -/
theorem exists_turns (requested : Nat) (entrants : List Entrant) :
    ∃ turns g, (Gate.start requested entrants.length).run? turns = some g ∧ g.isDone = true ∧
      turns.filterMap Turn.asks? = List.range entrants.length ∧
      turns.filterMap Turn.outcome? =
        (perform (Slots.effectiveLimit requested) entrants).outcomes ∧
      (∀ place ending, .finish place ending ∈ turns → ∃ e start, entrants[place]? = some e ∧
        ending = .sends (Visit.ofEntrant start e).outcome) ∧
      g.slots.peak = (perform (Slots.effectiveLimit requested) entrants).peak := by
  have hlimit := Slots.effectiveLimit_pos requested
  obtain ⟨turns, g, places, seated, h⟩ := exists_follows requested entrants
  obtain ⟨hwaiting, hholding⟩ := Schedule.ofJobs_done hlimit stay entrants
  have hplaces : places = [] := by
    have haligned := h.holding
    rw [schedule, hholding] at haligned
    exact List.forall₂_nil_right_iff.1 haligned
  have hseated : entrants.length ≤ seated := List.drop_eq_nil_iff.1 (h.waiting.symm.trans hwaiting)
  obtain ⟨hreached, hasked, hsent, hsends⟩ := h.recorded
  obtain ⟨taken, hkept⟩ := (Gate.Kept.start requested entrants.length).run hreached
  refine ⟨turns, g, hreached, ?_, hasked, ?_, hsends, h.peak⟩
  · rw [Gate.isDone_iff, hkept.sessions]
    intro p hp
    rw [h.stage, hplaces, if_neg List.not_mem_nil, if_pos (Nat.lt_of_lt_of_le hp hseated)]
  · rw [outcomes_perform hlimit, hsent, stints_perform, List.map_map]
    rfl

/-- On the clock a run keeps its slots busy. -/
structure Paced (limit : Nat) (entrants : List Entrant) (r : RunResult) : Prop where
  /-- The sessions take their slots in the order of the list. -/
  order : ∃ seated : List (Stint Visit), seated.map (·.job.entrant) = entrants ∧
    seated.Perm r.stints ∧ seated.Pairwise (·.start ≤ ·.start)
  crowd_le : ∀ time, Schedule.crowd time r.stints ≤ limit
  /-- All slots are held until the last session has one. -/
  full : ∀ stint ∈ r.stints, ∀ time < stint.start, Schedule.crowd time r.stints = limit
  peak_le : r.peak ≤ min entrants.length limit
  peak_eq : (∀ stint ∈ r.stints, stint.start < stint.finish) → r.peak = min entrants.length limit

theorem paced_perform (requested : Nat) (entrants : List Entrant) :
    Paced (Slots.effectiveLimit requested) entrants
      (perform (Slots.effectiveLimit requested) entrants) := by
  have hlimit := Slots.effectiveLimit_pos requested
  generalize hmost : Slots.effectiveLimit requested = limit at hlimit
  have hpeak_le : (perform limit entrants).peak ≤ min entrants.length limit := by
    obtain ⟨turns, g, hrun, -, -, -, -, hpeak⟩ := exists_turns requested entrants
    rw [← hmost, ← hpeak]
    exact (Gate.guarded_of_run? hrun).peak_le
  have hcrowd (time : Nat) : Schedule.crowd time (perform limit entrants).stints =
      Schedule.crowd time (schedule limit entrants).stints := by
    rw [stints_perform]
    exact List.countP_map
  have hschedule {stint : Stint Visit} (h : stint ∈ (perform limit entrants).stints) :
      ∃ s ∈ (schedule limit entrants).stints, s.start = stint.start ∧ s.finish = stint.finish := by
    rw [stints_perform] at h
    obtain ⟨s, hs, rfl⟩ := List.mem_map.1 h
    exact ⟨s, hs, rfl, rfl⟩
  refine ⟨?_, ?_, ?_, hpeak_le, ?_⟩
  · obtain ⟨seated, hjobs, hperm, hordered⟩ := Schedule.exists_seated hlimit stay entrants
    refine ⟨seated.map fun s => { s with job := Visit.ofEntrant s.start s.job }, ?_, ?_, ?_⟩
    · rw [List.map_map]
      exact hjobs
    · rw [stints_perform]
      exact hperm.map _
    · exact List.pairwise_map.2 hordered
  · intro time
    rw [hcrowd]
    refine (Schedule.crowd_le_peak_ofJobs hlimit stay entrants time).trans ?_
    exact hpeak_le.trans (Nat.min_le_right ..)
  · intro stint hstint time hlt
    obtain ⟨s, hs, hstart, -⟩ := hschedule hstint
    rw [hcrowd]
    exact Schedule.crowd_of_lt_start hlimit hs (hstart ▸ hlt)
  · intro h
    refine Nat.le_antisymm hpeak_le (Schedule.le_peak_ofJobs hlimit fun s hs => ?_)
    refine h { s with job := Visit.ofEntrant s.start s.job } ?_
    rw [stints_perform]
    exact List.mem_map_of_mem hs

/-- **The slots are the limit.** Whatever its sessions meet and whichever way they end, a run that
asks for some slots never has more sessions active than slots held, nor more slots held than it may;
every session gives back what it took, once; nobody waits while a slot is free; and the run on the
clock is one of these runs of turns. -/
theorem slots_limited (requested : Nat) (h : requested ≤ Slots.maxLimit) (entrants : List Entrant) :
    (∀ turns g, (Gate.start requested entrants.length).run? turns = some g →
      Gate.Guarded (max 1 requested) entrants.length turns g) ∧
    (∃ turns g, (Gate.start requested entrants.length).run? turns = some g ∧ g.isDone = true ∧
      turns.filterMap Turn.asks? = List.range entrants.length ∧
      turns.filterMap Turn.outcome? = (perform (max 1 requested) entrants).outcomes ∧
      (∀ place ending, .finish place ending ∈ turns → ∃ e start, entrants[place]? = some e ∧
        ending = .sends (Visit.ofEntrant start e).outcome) ∧
      g.slots.peak = (perform (max 1 requested) entrants).peak) ∧
    Paced (max 1 requested) entrants (perform (max 1 requested) entrants) := by
  have hlimit : Slots.effectiveLimit requested = max 1 requested := by
    rw [Slots.effectiveLimit, Nat.min_eq_left h]
  rw [← hlimit]
  exact ⟨fun _ _ => Gate.guarded_of_run?, exists_turns requested entrants,
    paced_perform requested entrants⟩

/-- Three sessions share two slots. On the clock two of them are active at once; in another run of
turns the task of the first is lost, and its slot goes to the third. -/
theorem slots_limited_three_for_two :
    let settings (name : String) : SessionSettings :=
      { SessionSettings.standard ⟨name⟩ ⟨"mock", 8888⟩ .standard with duration := .zero }
    let entrants : List Entrant :=
      [⟨settings "a", .quiet⟩, ⟨settings "b", .quiet⟩, ⟨settings "c", .quiet⟩]
    let turns : List Turn :=
      [.ask 0, .ask 1, .ask 2, .enter 0, .finish 0 .lost, .drop 0 .count, .drop 0 .slot]
    2 ≤ Slots.maxLimit ∧ (perform 2 entrants).peak = 2 ∧
      ∃ g, (Gate.start 2 3).run? turns = some g ∧ g.queue = [] ∧ Gate.Guarded 2 3 turns g := by
  intro settings entrants turns
  have hrequested : 2 ≤ Slots.maxLimit := by decide +kernel
  obtain ⟨hgate, -, hpaced⟩ := slots_limited 2 hrequested entrants
  have htimes : (perform 2 entrants).stints.all (fun s => s.start < s.finish) = true := by
    decide +kernel
  refine ⟨hrequested, hpaced.peak_eq fun s hs => ?_, _, rfl, rfl, hgate turns _ rfl⟩
  exact of_decide_eq_true (List.all_eq_true.1 htimes s hs)

/-- Nothing makes the tasks of two sessions start in the order of their list. If the second one is
the first to ask, it has taken the only slot while the first one waits. -/
theorem later_session_seated_first :
    ∃ g g', (Gate.start 1 2).run? [.ask 1, .ask 0, .enter 1] = some g ∧
      g.HasTaken 1 ∧ ¬ g.HasTaken 0 ∧ g.queue = [0] ∧
      g.run? [.finish 1 .lost, .drop 1 .count, .drop 1 .slot, .enter 0, .finish 0 .lost,
        .drop 0 .count, .drop 0 .slot] = some g' ∧ g'.isDone = true := by
  refine ⟨_, _, rfl, ⟨?_, ?_⟩, ?_, rfl, rfl, rfl⟩
  · intro hcoming
    cases hcoming
  · intro hwaits
    cases List.mem_singleton.1 hwaits
  · intro htaken
    exact htaken.2 List.mem_cons_self

end Run

end MarketLoad
