import Mathlib.Algebra.GroupWithZero.Nat
import Mathlib.Data.List.Nodup
import Mathlib.Data.List.Perm.Basic
import MarketLoad.Run.Gate

/-!
# What the gate keeps

The sessions that have asked for a slot are those that have taken one and then those that wait, in
the order in which they asked; the slots that are held and the sessions that are counted are what
those that have taken a slot owe (`Gate.Books`). A turn of a session that has a slot keeps this
(`Gate.Books.advance`), as does admitting the next one, which leaves nobody waiting while a slot is
free (`Gate.Books.letIn`). Hence every run of turns keeps it (`Gate.Kept.run`), some turn is
possible as long as a session is left (`Gate.Kept.exists_step?`), and at the end nothing is held
(`Gate.Kept.eq_zero_of_isDone`).
-/

namespace MarketLoad

/-! ### Stages -/

namespace Stage

variable {s : Stage} {guard : Guard} {guards : List Guard}

/-- How many of a kind a session has and has not given back. -/
def owes : Guard → Stage → Nat
  | .slot, asked => 1
  | _, inside => 1
  | guard, ended guards => guards.count guard
  | _, _ => 0

/-- How many of a kind a session has given back. -/
def gave (guard : Guard) : Stage → Nat
  | ended guards => if guard ∈ guards then 0 else 1
  | _ => 0

/-- The turns that a session has left. -/
def left : Stage → Nat
  | coming => 5
  | asked => 4
  | inside => 3
  | ended guards => guards.length

/-- Whatever a session has to give back when it has ended, its slot comes last. -/
def Stacked : Stage → Prop
  | ended guards => guards <:+ [.count, .slot]
  | _ => True

theorem suffix_cases (h : guards <:+ [.count, .slot]) :
    guards = [.count, .slot] ∨ guards = [.slot] ∨ guards = [] := by
  rcases List.suffix_cons_iff.1 h with rfl | h
  · exact .inl rfl
  · rcases List.suffix_cons_iff.1 h with rfl | h
    · exact .inr (.inl rfl)
    · exact .inr (.inr (List.suffix_nil.1 h))

theorem Stacked.cons_cases (h : (ended (guard :: guards)).Stacked) :
    guard = .count ∧ guards = [.slot] ∨ guard = .slot ∧ guards = [] := by
  rcases suffix_cases h with heq | heq | heq
  · exact .inl (List.cons_eq_cons.1 heq)
  · exact .inr (List.cons_eq_cons.1 heq)
  · cases heq

/-- A session that is counted has a slot, and no session has two. -/
theorem Stacked.owes_le (h : s.Stacked) : s.owes .count ≤ s.owes .slot ∧ s.owes .slot ≤ 1 := by
  cases s with
  | coming => exact ⟨Nat.le_refl 0, Nat.zero_le 1⟩
  | asked => exact ⟨Nat.zero_le 1, Nat.le_refl 1⟩
  | inside => exact ⟨Nat.le_refl 1, Nat.le_refl 1⟩
  | ended guards => rcases suffix_cases h with rfl | rfl | rfl <;> decide

end Stage

namespace Gate

variable {limit n place : Nat} {turns : List Turn} {turn : Turn} {taken : List Nat} {g g' : Gate}
  {stage : Stage} {slots : Slots}

/-! ### One session goes on -/

theorem run?_append (g : Gate) (turns more : List Turn) :
    g.run? (turns ++ more) = (g.run? turns).bind (·.run? more) := by
  induction turns generalizing g with
  | nil => rfl
  | cons turn turns ih => simp only [List.cons_append, run?, Option.bind_assoc, ih]

theorem letIn_frame (g : Gate) :
    g.letIn.stage = g.stage ∧ g.letIn.sessions = g.sessions ∧
      g.letIn.slots.active = g.slots.active ∧ g.letIn.slots.peak = g.slots.peak := by
  unfold letIn
  split
  · exact ⟨rfl, rfl, rfl, rfl⟩
  · split
    · exact ⟨rfl, rfl, rfl, rfl⟩
    · rename_i slots hslots
      simp only [Slots.acquire?, Option.ite_none_right_eq_some, Option.some.injEq] at hslots
      obtain ⟨-, rfl⟩ := hslots
      exact ⟨rfl, rfl, rfl, rfl⟩

theorem stage_move_self (g : Gate) (place : Nat) (stage : Stage) :
    (g.move place stage).stage place = stage := if_pos rfl

theorem stage_move_of_ne {p : Nat} (h : p ≠ place) (g : Gate) (stage : Stage) :
    (g.move place stage).stage p = g.stage p := if_neg h

theorem stacked_move (h : ∀ p, (g.stage p).Stacked) (hstage : stage.Stacked) (place p : Nat) :
    ((g.move place stage).stage p).Stacked := by
  by_cases hp : p = place
  · rw [hp, stage_move_self]
    exact hstage
  · rw [stage_move_of_ne hp]
    exact h p

theorem map_move_of_not_mem {places : List Nat} (h : place ∉ places) (f : Stage → Nat) (g : Gate)
    (stage : Stage) :
    (places.map fun p => f ((g.move place stage).stage p)) = places.map fun p => f (g.stage p) := by
  apply List.map_congr_left
  intro p hp
  have hne : p ≠ place := fun heq => h (heq ▸ hp)
  rw [stage_move_of_ne hne]

theorem sum_map_move {places : List Nat} (hnodup : places.Nodup) (h : place ∈ places)
    (f : Stage → Nat) (g : Gate) (stage : Stage) :
    (places.map fun p => f ((g.move place stage).stage p)).sum + f (g.stage place) =
      (places.map fun p => f (g.stage p)).sum + f stage := by
  have hperm := List.perm_cons_erase h
  have hothers := map_move_of_not_mem (hnodup.not_mem_erase (a := place)) f g stage
  rw [(hperm.map _).sum_nat, (hperm.map fun p => f (g.stage p)).sum_nat, List.map_cons,
    List.map_cons, List.sum_cons, List.sum_cons, hothers, stage_move_self]
  omega

private theorem sum_eq_zero {places : List Nat} {f : Nat → Nat} (h : ∀ p ∈ places, f p = 0) :
    (places.map f).sum = 0 := by
  rw [List.map_congr_left h]
  simp

theorem owes_le_sum {places : List Nat} (hnodup : places.Nodup) (h : place ∈ places) (g : Gate)
    (guard : Guard) :
    (g.stage place).owes guard ≤ (places.map fun p => (g.stage p).owes guard).sum := by
  have hsum := sum_map_move hnodup h (Stage.owes guard) g .coming
  have hnone : Stage.owes guard .coming = 0 := by cases guard <;> rfl
  omega

/-! ### The books -/

/-- A session has taken a slot. -/
def HasTaken (g : Gate) (place : Nat) : Prop := g.stage place ≠ .coming ∧ place ∉ g.queue

/-- The books of a gate after some turns, in which the sessions `taken` took a slot, in this order.
-/
structure Books (limit n : Nat) (turns : List Turn) (taken : List Nat) (g : Gate) : Prop where
  sessions : g.sessions = n
  order : turns.filterMap Turn.asks? = taken ++ g.queue
  nodup : (taken ++ g.queue).Nodup
  asked : ∀ p, p ∈ taken ++ g.queue ↔ g.stage p ≠ .coming
  lt : ∀ p, g.stage p ≠ .coming → p < n
  waiting : ∀ p ∈ g.queue, g.stage p = .asked
  stacked : ∀ p, (g.stage p).Stacked
  held : g.slots.held = (taken.map fun p => (g.stage p).owes .slot).sum
  active : g.slots.active = (taken.map fun p => (g.stage p).owes .count).sum
  held_le : g.slots.held ≤ limit
  active_le_peak : g.slots.active ≤ g.slots.peak
  peak_le : g.slots.peak ≤ min n limit
  gave : ∀ p guard, turns.count (.drop p guard) = (g.stage p).gave guard
  left : turns.length + ((List.range n).map fun p => (g.stage p).left).sum = 5 * n
  limit : g.slots.limit = limit

/-- The books of a gate at which nobody waits while a slot is free. -/
structure Kept (limit n : Nat) (turns : List Turn) (taken : List Nat) (g : Gate) : Prop
    extends Books limit n turns taken g where
  full : g.queue ≠ [] → g.slots.held = g.slots.limit

theorem sum_owes_le {stage : Nat → Stage} (h : ∀ p, (stage p).Stacked) (places : List Nat) :
    (places.map fun p => (stage p).owes .count).sum ≤
        (places.map fun p => (stage p).owes .slot).sum ∧
      (places.map fun p => (stage p).owes .slot).sum ≤ places.length := by
  induction places with
  | nil => exact ⟨Nat.le_refl 0, Nat.le_refl 0⟩
  | cons p places ih =>
    obtain ⟨hcount, hslot⟩ := (h p).owes_le
    simp only [List.map_cons, List.sum_cons, List.length_cons]
    omega

/-- A turn takes a session on to a later stage, and gives back what the session no longer owes. -/
structure Onward (place : Nat) (turn : Turn) (s stage : Stage) : Prop where
  coming : stage ≠ .coming
  stacked : stage.Stacked
  gave : ∀ guard, stage.gave guard = s.gave guard + if turn = .drop place guard then 1 else 0
  others : ∀ p guard, p ≠ place → turn ≠ .drop p guard
  left : stage.left + 1 = s.left

theorem Onward.ask (place : Nat) : Onward place (.ask place) .coming .asked where
  coming := nofun
  stacked := trivial
  gave _ := rfl
  others := nofun
  left := rfl

/-- A turn of a session that has a slot: the slots follow what the session owes. -/
structure Advance (g : Gate) (place : Nat) (turn : Turn) (stage : Stage) (slots : Slots) : Prop
    extends Onward place turn (g.stage place) stage where
  asks : turn.asks? = none
  limit : slots.limit = g.slots.limit
  held : slots.held + (g.stage place).owes .slot = g.slots.held + stage.owes .slot
  active : slots.active + (g.stage place).owes .count = g.slots.active + stage.owes .count
  held_le : slots.held ≤ g.slots.held
  peak : slots.peak = max g.slots.peak slots.active

namespace Books

theorem active_le_held (h : Books limit n turns taken g) : g.slots.active ≤ g.slots.held := by
  rw [h.active, h.held]
  exact (sum_owes_le h.stacked taken).1

theorem nodup_taken (h : Books limit n turns taken g) : taken.Nodup :=
  h.nodup.sublist (List.sublist_append_left ..)

theorem not_mem_queue_of_mem (h : Books limit n turns taken g) (hplace : place ∈ taken) :
    place ∉ g.queue := fun hm => (List.nodup_append.1 h.nodup).2.2 place hplace place hm rfl

theorem mem_taken_iff (h : Books limit n turns taken g) : place ∈ taken ↔ g.HasTaken place := by
  constructor
  · intro hp
    exact ⟨(h.asked place).1 (List.mem_append_left _ hp), h.not_mem_queue_of_mem hp⟩
  · rintro ⟨hasked, hnot⟩
    exact (List.mem_append.1 ((h.asked place).2 hasked)).resolve_right hnot

theorem length_taken_le (h : Books limit n turns taken g) : taken.length ≤ n := by
  have hsubset : taken ⊆ List.range n := by
    intro p hp
    exact List.mem_range.2 (h.lt p ((h.asked p).1 (List.mem_append_left _ hp)))
  have hle := (List.subperm_of_subset h.nodup_taken hsubset).length_le
  rwa [List.length_range] at hle

theorem lt_of_move (h : Books limit n turns taken g) (hlt : place < n) {p : Nat}
    (hp : (g.move place stage).stage p ≠ .coming) : p < n := by
  by_cases heq : p = place
  · exact heq ▸ hlt
  · rw [stage_move_of_ne heq] at hp
    exact h.lt p hp

theorem count_drop (h : Books limit n turns taken g) (ho : Onward place turn (g.stage place) stage)
    (p : Nat) (guard : Guard) :
    (turns ++ [turn]).count (.drop p guard) = ((g.move place stage).stage p).gave guard := by
  rw [List.count_append, h.gave, List.count_singleton]
  by_cases hp : p = place
  · rw [hp, stage_move_self, ho.gave guard]
    simp only [beq_iff_eq]
  · have hne : (turn == Turn.drop p guard) = false := beq_eq_false_iff_ne.2 (ho.others p guard hp)
    rw [hne, if_neg Bool.false_ne_true, stage_move_of_ne hp, Nat.add_zero]

theorem sum_left (h : Books limit n turns taken g) (ho : Onward place turn (g.stage place) stage)
    (hlt : place < n) : (turns ++ [turn]).length +
      ((List.range n).map fun p => ((g.move place stage).stage p).left).sum = 5 * n := by
  have hsum := sum_map_move List.nodup_range (List.mem_range.2 hlt) Stage.left g stage
  have hleft := ho.left
  have hall := h.left
  rw [List.length_append, List.length_singleton]
  omega

theorem advance (h : Books limit n turns taken g) (hplace : place ∈ taken)
    (ha : Advance g place turn stage slots) :
    Books limit n (turns ++ [turn]) taken { g.move place stage with slots } := by
  have hnodup := h.nodup_taken
  have hlt : place < n := h.lt place ((h.asked place).1 (List.mem_append_left _ hplace))
  have hstacked := stacked_move h.stacked ha.stacked place
  have hheld := sum_map_move hnodup hplace (Stage.owes .slot) g stage
  have hactive := sum_map_move hnodup hplace (Stage.owes .count) g stage
  have howes := ha.held
  have hcounts := ha.active
  rw [h.held] at howes
  rw [h.active] at hcounts
  refine
    { sessions := h.sessions, order := ?_, nodup := h.nodup, asked := ?_,
      lt := fun _ => h.lt_of_move hlt, waiting := ?_, stacked := hstacked,
      held := ?_, active := ?_, held_le := Nat.le_trans ha.held_le h.held_le,
      active_le_peak := ha.peak ▸ Nat.le_max_right .., peak_le := ?_,
      gave := h.count_drop ha.toOnward, left := h.sum_left ha.toOnward hlt,
      limit := ha.limit.trans h.limit }
  · rw [List.filterMap_append, h.order, List.filterMap_cons_none ha.asks]
    exact List.append_nil _
  · intro p
    by_cases hp : p = place
    · rw [hp]
      refine iff_of_true (List.mem_append_left _ hplace) ?_
      exact (stage_move_self g place stage).symm ▸ ha.coming
    · exact (h.asked p).trans (by rw [← stage_move_of_ne hp g stage])
  · intro p hp
    have hne : p ≠ place := fun heq => h.not_mem_queue_of_mem hplace (heq ▸ hp)
    exact (stage_move_of_ne hne g stage).trans (h.waiting p hp)
  · dsimp only
    omega
  · dsimp only
    omega
  · obtain ⟨hbelow, hmost⟩ := sum_owes_le hstacked taken
    have htaken := h.length_taken_le
    have hpeak_le := h.peak_le
    have hpeak := ha.peak
    have hheld_le := ha.held_le
    have hlimit := h.held_le
    dsimp only
    omega

theorem ask (h : Books limit n turns taken g) (hlt : place < n)
    (hcoming : g.stage place = .coming) : Books limit n (turns ++ [.ask place]) taken
      { g.move place .asked with queue := g.queue ++ [place] } := by
  have hnew : place ∉ taken ++ g.queue := fun hm => (h.asked place).1 hm hcoming
  have hnot : place ∉ taken := fun hm => hnew (List.mem_append_left _ hm)
  have honward : Onward place (.ask place) (g.stage place) .asked := hcoming ▸ .ask place
  refine
    { sessions := h.sessions, order := ?_, nodup := ?_, asked := ?_,
      lt := fun _ => h.lt_of_move hlt, waiting := ?_,
      stacked := stacked_move h.stacked honward.stacked place, held := ?_, active := ?_,
      held_le := h.held_le, active_le_peak := h.active_le_peak, peak_le := h.peak_le,
      gave := h.count_drop honward, left := h.sum_left honward hlt, limit := h.limit }
  · rw [List.filterMap_append, h.order, List.append_assoc]
    rfl
  · rw [← List.append_assoc, List.nodup_append]
    refine ⟨h.nodup, List.nodup_singleton place, ?_⟩
    intro p hp q hq heq
    exact hnew (List.mem_singleton.1 hq ▸ heq ▸ hp)
  · intro p
    rw [← List.append_assoc, List.mem_append, List.mem_singleton]
    by_cases hp : p = place
    · rw [hp]
      exact iff_of_true (.inr rfl) ((stage_move_self g place .asked).symm ▸ honward.coming)
    · rw [or_iff_left hp, h.asked]
      exact (by rw [← stage_move_of_ne hp g .asked])
  · intro p hp
    by_cases heq : p = place
    · exact heq ▸ stage_move_self g place .asked
    · refine (stage_move_of_ne heq g .asked).trans (h.waiting p ?_)
      exact (List.mem_append.1 hp).resolve_right fun hm => heq (List.mem_singleton.1 hm)
  · exact h.held.trans (congrArg _ (map_move_of_not_mem hnot _ g .asked).symm)
  · exact h.active.trans (congrArg _ (map_move_of_not_mem hnot _ g .asked).symm)

/-- Admitting the session that has waited longest leaves nobody waiting while a slot is free, if
that session alone may have waited beside one. -/
theorem letIn (h : Books limit n turns taken g)
    (hnear : g.queue.tail ≠ [] → limit ≤ g.slots.held + 1) :
    ∃ taken', Kept limit n turns taken' g.letIn := by
  unfold Gate.letIn
  cases hqueue : g.queue with
  | nil => exact ⟨taken, h, fun hne => absurd hqueue hne⟩
  | cons first queue =>
    rw [hqueue] at hnear
    have hheld_le := h.held_le
    have hlimit := h.limit
    by_cases hfree : g.slots.held < g.slots.limit
    · simp only [Slots.acquire?, if_pos hfree]
      have hfirst : g.stage first = .asked := h.waiting first (hqueue ▸ List.mem_cons_self)
      have horder : taken ++ [first] ++ queue = taken ++ g.queue := by
        rw [hqueue, List.append_assoc, List.singleton_append]
      refine ⟨taken ++ [first],
        { sessions := h.sessions, order := h.order.trans horder.symm,
          nodup := horder.symm ▸ h.nodup, asked := horder.symm ▸ h.asked, lt := h.lt, waiting := ?_,
          stacked := h.stacked, held := ?_, active := ?_, held_le := ?_,
          active_le_peak := h.active_le_peak, peak_le := h.peak_le, gave := h.gave, left := h.left,
          limit := hlimit, full := ?_ }⟩
      · intro p hp
        exact h.waiting p (hqueue ▸ List.mem_cons_of_mem _ hp)
      · rw [List.map_append, List.sum_append, ← h.held, List.map_singleton, hfirst]
        rfl
      · rw [List.map_append, List.sum_append, ← h.active, List.map_singleton, hfirst]
        rfl
      · dsimp only
        omega
      · intro hne
        have := hnear hne
        dsimp only
        omega
    · simp only [Slots.acquire?, if_neg hfree]
      exact ⟨taken, h, fun _ => by omega⟩

end Books

/-! ### Turns -/

theorem advance_enter (h : g.stage place = .asked) :
    Advance g place (.enter place) .inside g.slots.enter where
  asks := rfl
  coming := nofun
  stacked := trivial
  limit := rfl
  held := by rw [h]; rfl
  active := by rw [h]; rfl
  held_le := Nat.le_refl _
  peak := rfl
  gave guard := by rw [h]; rfl
  others := nofun
  left := by rw [h]; rfl

theorem advance_finish (h : g.stage place = .inside) (hpeak : g.slots.active ≤ g.slots.peak)
    (ending : Ending) :
    Advance g place (.finish place ending) (.ended [.count, .slot]) g.slots where
  asks := rfl
  coming := nofun
  stacked := List.suffix_refl _
  limit := rfl
  held := by rw [h]; rfl
  active := by rw [h]; rfl
  held_le := Nat.le_refl _
  peak := (Nat.max_eq_left hpeak).symm
  gave guard := by rw [h]; cases guard <;> rfl
  others := nofun
  left := by rw [h]; rfl

theorem advance_drop_count (h : g.stage place = .ended [.count, .slot])
    (hactive : 1 ≤ g.slots.active) (hpeak : g.slots.active ≤ g.slots.peak) :
    Advance g place (.drop place .count) (.ended [.slot]) g.slots.leave where
  asks := rfl
  coming := nofun
  stacked := List.suffix_cons ..
  limit := rfl
  held := by rw [h]; rfl
  active := by rw [h]; exact Nat.sub_add_cancel hactive
  held_le := Nat.le_refl _
  peak := (Nat.max_eq_left (Nat.le_trans (Nat.sub_le ..) hpeak)).symm
  gave guard := by rw [h]; cases guard <;> simp [Stage.gave]
  others p guard hp heq := hp (Turn.drop.inj heq).1.symm
  left := by rw [h]; rfl

theorem advance_drop_slot (h : g.stage place = .ended [.slot]) (hheld : 1 ≤ g.slots.held)
    (hpeak : g.slots.active ≤ g.slots.peak) :
    Advance g place (.drop place .slot) (.ended []) g.slots.release where
  asks := rfl
  coming := nofun
  stacked := List.nil_suffix
  limit := rfl
  held := by rw [h]; exact Nat.sub_add_cancel hheld
  active := by rw [h]; rfl
  held_le := Nat.sub_le ..
  peak := (Nat.max_eq_left hpeak).symm
  gave guard := by rw [h]; cases guard <;> simp [Stage.gave]
  others p guard hp heq := hp (Turn.drop.inj heq).1.symm
  left := by rw [h]; rfl

/-- What one turn does: the session whose turn it is goes on to its next stage. -/
theorem step?_cases (h : g.step? turn = some g') :
    (∃ place, turn = .ask place ∧ place < g.sessions ∧ g.stage place = .coming ∧
      g' = { g.move place .asked with queue := g.queue ++ [place] }.letIn) ∨
    (∃ place, turn = .enter place ∧ g.stage place = .asked ∧ place ∉ g.queue ∧
      g' = { g.move place .inside with slots := g.slots.enter }) ∨
    (∃ place ending, turn = .finish place ending ∧ g.stage place = .inside ∧
      g' = g.move place (.ended [.count, .slot])) ∨
    ∃ place guard guards, turn = .drop place guard ∧ g.stage place = .ended (guard :: guards) ∧
      g' = (g.move place (.ended guards)).takeBack guard := by
  cases turn with
  | ask place =>
    simp only [step?, Option.ite_none_right_eq_some, Option.some.injEq] at h
    obtain ⟨⟨hlt, hcoming⟩, rfl⟩ := h
    exact .inl ⟨place, rfl, hlt, hcoming, rfl⟩
  | enter place =>
    simp only [step?, Option.ite_none_right_eq_some, Option.some.injEq] at h
    obtain ⟨⟨hasked, hnot⟩, rfl⟩ := h
    exact .inr (.inl ⟨place, rfl, hasked, hnot, rfl⟩)
  | finish place ending =>
    simp only [step?, Option.ite_none_right_eq_some, Option.some.injEq] at h
    obtain ⟨hinside, rfl⟩ := h
    exact .inr (.inr (.inl ⟨place, ending, rfl, hinside, rfl⟩))
  | drop place guard =>
    simp only [step?] at h
    split at h
    · rename_i first guards hended
      simp only [Option.ite_none_right_eq_some, Option.some.injEq] at h
      obtain ⟨rfl, rfl⟩ := h
      exact .inr (.inr (.inr ⟨place, first, guards, rfl, hended, rfl⟩))
    · cases h

namespace Kept

theorem start (requested n : Nat) :
    Kept (Slots.effectiveLimit requested) n [] [] (start requested n) where
  sessions := rfl
  order := rfl
  nodup := List.nodup_nil
  asked p := iff_of_false List.not_mem_nil fun h => h rfl
  lt p h := absurd rfl h
  waiting p hp := absurd hp List.not_mem_nil
  stacked p := trivial
  held := rfl
  active := rfl
  held_le := Nat.zero_le _
  active_le_peak := Nat.le_refl 0
  peak_le := Nat.zero_le _
  gave p guard := rfl
  left := by simp [Gate.start, Stage.left, Nat.mul_comm]
  limit := rfl
  full h := absurd rfl h

theorem not_mem_queue (h : Kept limit n turns taken g) (hplace : g.stage place ≠ .asked) :
    place ∉ g.queue := fun hm => hplace (h.waiting place hm)

theorem mem_taken (h : Kept limit n turns taken g) (hcoming : g.stage place ≠ .coming)
    (hasked : g.stage place ≠ .asked) : place ∈ taken :=
  h.mem_taken_iff.2 ⟨hcoming, h.not_mem_queue hasked⟩

theorem step (h : Kept limit n turns taken g) (hs : g.step? turn = some g') :
    ∃ taken', Kept limit n (turns ++ [turn]) taken' g' := by
  have hpeak := h.active_le_peak
  obtain ⟨place, rfl, hlt, hcoming, rfl⟩ | ⟨place, rfl, hasked, hnot, rfl⟩ |
    ⟨place, ending, rfl, hinside, rfl⟩ | ⟨place, guard, guards, rfl, hended, rfl⟩ := step?_cases hs
  · refine (h.ask (h.sessions ▸ hlt) hcoming).letIn ?_
    intro htail
    have hfull := h.full fun hnil => htail (by rw [hnil]; rfl)
    have hlimit := h.limit
    dsimp only [move]
    omega
  · have htaken := h.mem_taken_iff.2 ⟨by rw [hasked]; nofun, hnot⟩
    exact ⟨taken, h.advance htaken (advance_enter hasked), h.full⟩
  · have htaken := h.mem_taken (by rw [hinside]; nofun) (by rw [hinside]; nofun)
    exact ⟨taken, h.advance htaken (advance_finish hinside hpeak ending), h.full⟩
  · have htaken := h.mem_taken (by rw [hended]; nofun) (by rw [hended]; nofun)
    have hstacked := h.stacked place
    rw [hended] at hstacked
    obtain ⟨rfl, rfl⟩ | ⟨rfl, rfl⟩ := hstacked.cons_cases
    · have hone := owes_le_sum h.nodup_taken htaken g .count
      rw [← h.active, hended] at hone
      exact ⟨taken, h.advance htaken (advance_drop_count hended hone hpeak), h.full⟩
    · have hone := owes_le_sum h.nodup_taken htaken g .slot
      rw [← h.held, hended] at hone
      refine (h.advance htaken (advance_drop_slot hended hone hpeak)).letIn ?_
      -- The slot that comes back is the only one that is free, so one session is enough to fill it.
      intro htail
      have hfull := h.full fun hnil => htail (congrArg List.tail hnil)
      have hlimit := h.limit
      dsimp only [Slots.release, move]
      omega

theorem run {more : List Turn} (h : Kept limit n turns taken g) (hr : g.run? more = some g') :
    ∃ taken', Kept limit n (turns ++ more) taken' g' := by
  induction more generalizing turns taken g with
  | nil =>
    cases hr
    exact ⟨taken, (List.append_nil turns).symm ▸ h⟩
  | cons turn more ih =>
    simp only [run?, Option.bind_eq_some_iff] at hr
    obtain ⟨g₁, hs, hr⟩ := hr
    obtain ⟨taken₁, h₁⟩ := h.step hs
    obtain ⟨taken', h'⟩ := ih h₁ hr
    rw [List.append_assoc, List.singleton_append] at h'
    exact ⟨taken', h'⟩

end Kept

/-! ### The end -/

theorem isDone_iff : g.isDone = true ↔ ∀ p < g.sessions, g.stage p = .ended [] := by
  simp only [isDone, List.all_eq_true, List.mem_range, decide_eq_true_eq]

/-- A session that does not wait and has not given everything back can take its turn. -/
theorem exists_step?_of_not_mem (hlt : place < g.sessions) (hnot : place ∉ g.queue)
    (hleft : g.stage place ≠ .ended []) : ∃ turn g', g.step? turn = some g' := by
  match hstage : g.stage place with
  | .coming => exact ⟨.ask place, _, if_pos ⟨hlt, hstage⟩⟩
  | .asked => exact ⟨.enter place, _, if_pos ⟨hstage, hnot⟩⟩
  | .inside => exact ⟨.finish place .lost, _, if_pos hstage⟩
  | .ended [] => exact absurd hstage hleft
  | .ended (guard :: guards) =>
    exact ⟨.drop place guard, _, by simp only [step?, hstage]; exact if_pos trivial⟩

namespace Kept

/-- As long as a session is left, some turn is possible: where a session waits, another one has its
slot, and that one does not wait. -/
theorem exists_step? (h : Kept limit n turns taken g) (hlimit : 0 < limit)
    (hd : g.isDone = false) : ∃ turn g', g.step? turn = some g' := by
  have hleft : ∃ p, p < g.sessions ∧ g.stage p ≠ .ended [] := by
    by_contra hall
    push Not at hall
    rw [isDone_iff.2 hall] at hd
    cases hd
  obtain ⟨p, hp, hended⟩ := hleft
  by_cases hwaits : p ∈ g.queue
  · have hheld : 0 < g.slots.held := by
      rw [h.full (List.ne_nil_of_mem hwaits), h.limit]
      exact hlimit
    have hholds : ∃ q ∈ taken, (g.stage q).owes .slot ≠ 0 := by
      by_contra hnone
      push Not at hnone
      rw [h.held, sum_eq_zero hnone] at hheld
      omega
    obtain ⟨q, hq, howes⟩ := hholds
    have hasked := (h.asked q).1 (List.mem_append_left _ hq)
    exact exists_step?_of_not_mem (h.sessions ▸ h.lt q hasked) (h.not_mem_queue_of_mem hq)
      fun hnil => howes (by rw [hnil]; rfl)
  · exact exists_step?_of_not_mem hp hwaits hended

/-- When all sessions have given everything back, nothing is held and nobody is counted. -/
theorem eq_zero_of_isDone (h : Kept limit n turns taken g) (hd : g.isDone = true) :
    g.slots.held = 0 ∧ g.slots.active = 0 ∧ ∀ p < n, ∀ guard, turns.count (.drop p guard) = 1 := by
  rw [isDone_iff, h.sessions] at hd
  have hended (p : Nat) (hp : p ∈ taken) : g.stage p = .ended [] :=
    hd p (h.lt p ((h.asked p).1 (List.mem_append_left _ hp)))
  have hheld : g.slots.held = 0 :=
    h.held.trans (sum_eq_zero fun p hp => by rw [hended p hp]; rfl)
  refine ⟨hheld, Nat.le_zero.1 (hheld ▸ h.active_le_held), ?_⟩
  intro p hp guard
  rw [h.gave, hd p hp]
  rfl

end Kept

/-- What holds of a gate with some slots for some sessions after some turns. -/
structure Guarded (limit n : Nat) (turns : List Turn) (g : Gate) : Prop where
  active_le_held : g.slots.active ≤ g.slots.held
  held_le : g.slots.held ≤ limit
  active_le_peak : g.slots.active ≤ g.slots.peak
  peak_le : g.slots.peak ≤ min n limit
  /-- Nobody waits while a slot is free. -/
  full : g.queue ≠ [] → g.slots.held = limit
  /-- Slots are taken in the order in which they are asked for. -/
  order : ∃ taken, turns.filterMap Turn.asks? = taken ++ g.queue ∧ ∀ p, p ∈ taken ↔ g.HasTaken p
  /-- Sessions that ask in the order of their list take their slots in that order. -/
  list_order : turns.filterMap Turn.asks? <+: List.range n →
    ∀ p q, p < q → g.HasTaken q → g.HasTaken p
  /-- What a session has taken it gives back once, after it has ended. -/
  gave : ∀ p guard, turns.count (.drop p guard) = (g.stage p).gave guard
  length_le : turns.length ≤ 5 * n
  /-- As long as a session is left, some turn is possible. -/
  next : g.isDone = false → ∃ turn g', g.step? turn = some g'
  done : g.isDone = true →
    g.slots.held = 0 ∧ g.slots.active = 0 ∧ ∀ p < n, ∀ guard, turns.count (.drop p guard) = 1

theorem Kept.guarded (h : Kept limit n turns taken g) (hlimit : 0 < limit) :
    Guarded limit n turns g where
  active_le_held := h.active_le_held
  held_le := h.held_le
  active_le_peak := h.active_le_peak
  peak_le := h.peak_le
  full hqueue := (h.full hqueue).trans h.limit
  order := ⟨taken, h.order, fun _ => h.mem_taken_iff⟩
  list_order hprefix p q hlt hq := by
    rw [h.order] at hprefix
    have htaken := List.prefix_iff_eq_take.1 ((List.prefix_append ..).trans hprefix)
    rw [List.take_range, Nat.min_eq_left h.length_taken_le] at htaken
    rw [← h.mem_taken_iff, htaken, List.mem_range] at hq ⊢
    exact Nat.lt_trans hlt hq
  gave := h.gave
  length_le := by
    have := h.left
    omega
  next := h.exists_step? hlimit
  done := h.eq_zero_of_isDone

theorem guarded_of_run? {requested : Nat} (h : (start requested n).run? turns = some g) :
    Guarded (Slots.effectiveLimit requested) n turns g := by
  obtain ⟨taken, hkept⟩ := (Kept.start requested n).run h
  exact hkept.guarded (Slots.effectiveLimit_pos requested)

end Gate

end MarketLoad
