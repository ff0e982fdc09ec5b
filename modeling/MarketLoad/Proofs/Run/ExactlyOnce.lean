import Mathlib.Data.List.Perm.Basic
import MarketLoad.Run.Dispatch
import MarketLoad.Proofs.Run.Collecting

/-!
# Exactly one outcome for each session

Whatever the interleaving, the outcomes still owed are those of the tasks that have not ended, of
the tasks that were lost and of the outcomes on their way (`Dispatch.Tracked`). One move keeps this
(`Tracked.step`), hence every run of moves does (`Tracked.run`), and at the end only lost tasks are
left to be made up for.
-/

namespace MarketLoad.Dispatch

variable {σ : Type} {observe : σ → Outcome → σ} {state : σ} {traders ending : List Trader}
  {sent : List Outcome} {trader : Trader} {d d' : Dispatch σ}

/-- The number of moves that are left, at most. -/
def movesLeft (d : Dispatch σ) : Nat :=
  3 * d.queued.length + 2 * d.active.length + d.channel.length

/-- The books of a run whose tasks have sent some outcomes; the tasks of the traders `ending` are
about to end. -/
structure Tracked (observe : σ → Outcome → σ) (state : σ) (traders ending : List Trader)
    (sent : List Outcome) (d : Dispatch σ) : Prop where
  balanced : d.collector.Balanced observe state traders
  outstanding : d.collector.owed.traders.Perm
    (ending ++ (d.queued ++ d.active ++ d.lost ++ d.channel.map (·.trader)))
  delivered : d.collector.outcomes ++ d.channel = sent
  held : d.slots.held = d.active.length
  limit_pos : 0 < d.slots.limit

theorem Tracked.start (requested : Nat) (traders : List Trader) :
    Tracked observe state traders [] [] (start requested traders state) where
  balanced := .start
  outstanding := by
    simp only [Dispatch.start, List.append_nil, List.nil_append, List.map_nil]
    exact Debts.traders_ofTraders traders
  delivered := rfl
  held := rfl
  limit_pos := Slots.effectiveLimit_pos requested

/-- A trader may stand anywhere in a list of traders. -/
private theorem perm_cons_append (trader : Trader) (l₁ l₂ : List Trader) :
    (l₁ ++ trader :: l₂).Perm (trader :: (l₁ ++ l₂)) := List.perm_middle

/-- Ending a task leaves the books in order, whether it sends an outcome or is lost. -/
theorem Tracked.close {e : Ending} (h : Tracked observe state traders [trader] sent d)
    (hc : d.close? trader e = some d') (place : Nat) :
    Tracked observe state traders [] (sent ++ (Move.finish place e).outcome?.toList) d' ∧
      d'.movesLeft ≤ d.movesLeft + 1 := by
  cases e with
  | sends outcome =>
    simp only [close?, Option.ite_none_right_eq_some, Option.some.injEq] at hc
    obtain ⟨ht, rfl⟩ := hc
    refine ⟨⟨h.balanced, ?_, ?_, h.held, h.limit_pos⟩, ?_⟩
    · simp only [List.map_append, List.map_cons, List.map_nil, ht, List.nil_append]
      refine h.outstanding.trans (List.perm_append_comm.trans ?_)
      rw [List.append_assoc]
    · rw [← List.append_assoc, h.delivered]; rfl
    · simp only [movesLeft, List.length_append, List.length_singleton]; omega
  | lost =>
    simp only [close?, Option.some.injEq] at hc
    subst hc
    refine ⟨⟨h.balanced, ?_, ?_, h.held, h.limit_pos⟩, ?_⟩
    · have hmid := perm_cons_append trader (d.queued ++ d.active)
        (d.lost ++ d.channel.map (·.trader))
      refine h.outstanding.trans ?_
      simpa only [List.append_assoc, List.cons_append, List.nil_append] using hmid.symm
    · exact h.delivered.trans (List.append_nil _).symm
    · exact Nat.le_succ _

/-- Taking the task at a place out of a list. -/
private theorem perm_cons_eraseIdx {place : Nat} {l : List Trader} (h : l[place]? = some trader) :
    (trader :: l.eraseIdx place).Perm l ∧ (l.eraseIdx place).length + 1 = l.length := by
  obtain ⟨hlt, rfl⟩ := List.getElem?_eq_some_iff.1 h
  refine ⟨List.getElem_cons_eraseIdx_perm hlt, ?_⟩
  rw [List.length_eraseIdx_of_lt hlt]
  omega

/-! ### The moves -/

theorem Tracked.seat (h : Tracked observe state traders [] sent d)
    (hs : d.step? observe .seat = some d') :
    Tracked observe state traders [] (sent ++ Move.seat.outcome?.toList) d' ∧
      d'.movesLeft < d.movesLeft := by
  simp only [step?] at hs
  split at hs
  · cases hs
  · rename_i trader queued hq
    simp only [Option.map_eq_some_iff, Slots.acquire?, Option.ite_none_right_eq_some,
      Option.some.injEq] at hs
    obtain ⟨_, ⟨_, rfl⟩, rfl⟩ := hs
    refine ⟨⟨h.balanced, ?_, h.delivered.trans (List.append_nil _).symm, ?_, h.limit_pos⟩, ?_⟩
    · have hmid := perm_cons_append trader (queued ++ d.active)
        (d.lost ++ d.channel.map (·.trader))
      have hout := h.outstanding
      rw [hq] at hout
      refine hout.trans ?_
      simpa only [List.append_assoc, List.cons_append, List.nil_append] using hmid.symm
    · simp only [Slots.enter, List.length_append, List.length_singleton, h.held]
    · simp only [movesLeft, hq, List.length_cons, List.length_append, List.length_nil]; omega

theorem Tracked.leaveSlot {place : Nat} {e : Ending} (h : Tracked observe state traders [] sent d)
    (hs : d.step? observe (.finish place e) = some d') :
    Tracked observe state traders [] (sent ++ (Move.finish place e).outcome?.toList) d' ∧
      d'.movesLeft < d.movesLeft := by
  simp only [step?, Option.bind_eq_some_iff] at hs
  obtain ⟨trader, hp, hc⟩ := hs
  obtain ⟨hperm, hlen⟩ := perm_cons_eraseIdx hp
  have hends : Tracked observe state traders [trader] sent
      { d with slots := d.slots.leave.release, active := d.active.eraseIdx place } := by
    refine ⟨h.balanced, ?_, h.delivered, ?_, h.limit_pos⟩
    · refine h.outstanding.trans ?_
      have hmid := perm_cons_append trader d.queued
        (d.active.eraseIdx place ++ (d.lost ++ d.channel.map (·.trader)))
      have hactive := (hperm.symm.append_right (d.lost ++ d.channel.map (·.trader))).append_left
        d.queued
      simpa only [List.append_assoc, List.cons_append, List.nil_append] using hactive.trans hmid
    · simp only [Slots.release, Slots.leave, h.held]; omega
  obtain ⟨htracked, hleft⟩ := hends.close hc place
  refine ⟨htracked, ?_⟩
  simp only [movesLeft] at hleft ⊢; omega

theorem Tracked.leaveQueue {place : Nat} {e : Ending} (h : Tracked observe state traders [] sent d)
    (hs : d.step? observe (.leave place e) = some d') :
    Tracked observe state traders [] (sent ++ (Move.leave place e).outcome?.toList) d' ∧
      d'.movesLeft < d.movesLeft := by
  simp only [step?, Option.bind_eq_some_iff] at hs
  obtain ⟨trader, hp, hc⟩ := hs
  obtain ⟨hperm, hlen⟩ := perm_cons_eraseIdx hp
  have hends : Tracked observe state traders [trader] sent
      { d with queued := d.queued.eraseIdx place } := by
    refine ⟨h.balanced, ?_, h.delivered, h.held, h.limit_pos⟩
    refine h.outstanding.trans ?_
    have hqueued := hperm.symm.append_right (d.active ++ (d.lost ++ d.channel.map (·.trader)))
    simpa only [List.append_assoc, List.cons_append, List.nil_append] using hqueued
  obtain ⟨htracked, hleft⟩ := hends.close hc place
  have hsame : (Move.finish place e).outcome? = (Move.leave place e).outcome? := by
    cases e <;> rfl
  rw [hsame] at htracked
  refine ⟨htracked, ?_⟩
  simp only [movesLeft] at hleft ⊢; omega

theorem Tracked.receive (h : Tracked observe state traders [] sent d)
    (hs : d.step? observe .receive = some d') :
    Tracked observe state traders [] (sent ++ Move.receive.outcome?.toList) d' ∧
      d'.movesLeft < d.movesLeft := by
  simp only [step?] at hs
  split at hs
  · cases hs
  · rename_i outcome channel hch
    simp only [Option.some.injEq] at hs
    subst hs
    have hout := h.outstanding
    rw [hch] at hout
    have hmem : outcome.trader ∈ d.collector.owed.traders :=
      hout.mem_iff.2 (by simp)
    refine ⟨⟨h.balanced.receive hmem, ?_, ?_, h.held, h.limit_pos⟩, ?_⟩
    · have howed : (d.collector.receive observe outcome).owed.traders =
          d.collector.owed.traders.erase outcome.trader := Debts.traders_settle _ _
      rw [howed]
      have hmid := perm_cons_append outcome.trader (d.queued ++ d.active ++ d.lost)
        (channel.map (·.trader))
      have herase := (hout.trans hmid).erase outcome.trader
      rwa [List.erase_cons_head] at herase
    · rw [Collector.outcomes_receive, List.append_assoc, List.singleton_append, ← hch,
        h.delivered]
      exact (List.append_nil _).symm
    · simp only [movesLeft, hch, List.length_cons]; omega

/-- One move keeps the books and brings the end nearer. -/
theorem Tracked.step {move : Move} (h : Tracked observe state traders [] sent d)
    (hs : d.step? observe move = some d') :
    Tracked observe state traders [] (sent ++ move.outcome?.toList) d' ∧
      d'.movesLeft < d.movesLeft := by
  cases move with
  | seat => exact h.seat hs
  | finish place e => exact h.leaveSlot hs
  | leave place e => exact h.leaveQueue hs
  | receive => exact h.receive hs

/-- A run of moves keeps the books. -/
theorem Tracked.run {moves : List Move} (h : Tracked observe state traders [] sent d)
    (hr : d.run? observe moves = some d') :
    Tracked observe state traders [] (sent ++ moves.filterMap Move.outcome?) d' ∧
      moves.length + d'.movesLeft ≤ d.movesLeft := by
  induction moves generalizing d sent with
  | nil =>
    cases hr
    exact ⟨by simpa using h, by simp⟩
  | cons move moves ih =>
    simp only [run?, Option.bind_eq_some_iff] at hr
    obtain ⟨d₁, hs, hr⟩ := hr
    obtain ⟨h₁, hlt⟩ := h.step hs
    obtain ⟨h', hle⟩ := ih h₁ hr
    refine ⟨?_, by rw [List.length_cons]; omega⟩
    rw [List.append_assoc] at h'
    cases hm : move.outcome? <;> simpa [hm, List.filterMap_cons] using h'

/-- As long as something is left to be done, some move is possible. -/
theorem Tracked.exists_step? (h : Tracked observe state traders [] sent d)
    (hd : d.isDone = false) : ∃ move d', d.step? observe move = some d' := by
  match hch : d.channel, hac : d.active, hqu : d.queued with
  | outcome :: channel, _, _ =>
    exact ⟨.receive, _, by simp only [step?, hch]; rfl⟩
  | [], trader :: active, _ =>
    exact ⟨.finish 0 .lost, _, by simp only [step?, hac, List.getElem?_cons_zero, close?]; rfl⟩
  | [], [], trader :: queued =>
    have hfree : d.slots.held < d.slots.limit := by
      rw [h.held, hac]; exact h.limit_pos
    exact ⟨.seat, _, by simp only [step?, hqu, Slots.acquire?, if_pos hfree]; rfl⟩
  | [], [], [] => simp [isDone, hch, hac, hqu] at hd

/-- What a run comes to once all its tasks have ended: the outcomes that were sent, in order, and
then one for each task that was lost. -/
theorem Tracked.finish (h : Tracked observe state traders [] sent d) (hd : d.isDone = true)
    (elapsed : Span) :
    ∃ owed : List Trader, owed.Perm d.lost ∧
      (d.finish observe elapsed).outcomes = sent ++ owed.map (Collector.lostOutcome elapsed) := by
  simp only [isDone, Bool.and_eq_true, List.isEmpty_iff] at hd
  obtain ⟨⟨hq, ha⟩, hc⟩ := hd
  refine ⟨d.collector.owed.traders, ?_, ?_⟩
  · simpa [hq, ha, hc] using h.outstanding
  · rw [Dispatch.finish, Collector.outcomes_settle, ← h.delivered, hc, List.append_nil]

/-- Every interleaving of a run's tasks comes to an end, and each session then has exactly one
outcome: first those that were sent, in the order in which they were, then one for each task that
was lost. The observer has been shown them all, in that order. -/
theorem exactly_one_outcome_each (observe : σ → Outcome → σ) (state : σ) (requested : Nat)
    (traders : List Trader) (elapsed : Span) (moves : List Move) (d : Dispatch σ)
    (h : (start requested traders state).run? observe moves = some d) :
    moves.length ≤ 3 * traders.length ∧
    (d.isDone = false → ∃ move d', d.step? observe move = some d') ∧
    (d.isDone = true →
      (d.finish observe elapsed).outcomes.length = traders.length ∧
      ((d.finish observe elapsed).outcomes.map (·.trader)).Perm traders ∧
      (∃ owed : List Trader, owed.Perm d.lost ∧
        (d.finish observe elapsed).outcomes =
          moves.filterMap Move.outcome? ++ owed.map (Collector.lostOutcome elapsed)) ∧
      (d.finish observe elapsed).observed =
        (d.finish observe elapsed).outcomes.foldl observe state) := by
  obtain ⟨htracked, hlength⟩ := (Tracked.start requested traders).run h
  rw [List.nil_append] at htracked
  refine ⟨?_, htracked.exists_step?, fun hd => ?_⟩
  · simp only [movesLeft, start, List.length_nil] at hlength
    omega
  · have hperm := Collector.traders_settle htracked.balanced elapsed
    refine ⟨?_, hperm, htracked.finish hd elapsed, ?_⟩
    · rw [← hperm.length_eq, List.length_map]; rfl
    · exact Collector.observed_settle htracked.balanced elapsed

/-- Three sessions, two of them of one trader, share one slot; one task of that trader is lost and
the other breaks down. -/
theorem exactly_one_outcome_each_one_lost :
    let broken : Outcome := .untraded ⟨"a"⟩ .zero (.worker "boom")
    let traded : Outcome := { broken with trader := ⟨"b"⟩, sent := 1, success := true }
    let observe := fun (seen : List Outcome) (o : Outcome) => o :: seen
    let moves : List Move :=
      [.seat, .finish 0 (.sends broken), .leave 0 .lost, .seat, .receive,
        .finish 0 (.sends traded), .receive]
    ∃ d, (start 1 [⟨"a"⟩, ⟨"a"⟩, ⟨"b"⟩] []).run? observe moves = some d ∧ d.isDone = true ∧
      (d.finish observe .zero).outcomes.length = 3 ∧
      (d.finish observe .zero).outcomes =
        [broken, traded, Collector.lostOutcome .zero ⟨"a"⟩] := by
  intro broken traded observe moves
  have h := exactly_one_outcome_each observe [] 1 [⟨"a"⟩, ⟨"a"⟩, ⟨"b"⟩] .zero moves _ rfl
  exact ⟨_, rfl, rfl, (h.2.2 rfl).1, rfl⟩

end MarketLoad.Dispatch
