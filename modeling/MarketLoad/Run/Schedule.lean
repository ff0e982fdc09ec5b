import MarketLoad.Run.Slots

/-! # Schedules

Jobs share the slots of a run. They start in the order of their list, each as soon as a slot is
free; a slot that is given back is taken again at the same instant. How long a job holds its slot
is known once it starts (`length`). Every job becomes a stint: `Schedule.run` moves through time
from one start or finish to the next. -/

namespace MarketLoad

/-- The time a job spends in a slot. -/
structure Stint (α : Type) where
  job : α
  start : Nat
  finish : Nat
deriving DecidableEq, Repr

/-- A schedule between two moves. -/
structure Schedule (α : Type) where
  now : Nat
  slots : Slots
  /-- The jobs without a slot, in order. -/
  waiting : List α
  /-- The jobs in slots, by their finish times and then by age. -/
  holding : List (Stint α)
  /-- The jobs that are done, the last one first. -/
  finished : List (Stint α)
deriving Repr

namespace Schedule

variable {α : Type}

/-- Every job waits. -/
def start (limit : Nat) (jobs : List α) : Schedule α :=
  { now := 0, slots := .idle limit, waiting := jobs, holding := [], finished := [] }

/-- Puts a stint behind all that finish no later. -/
def insert (stint : Stint α) : List (Stint α) → List (Stint α)
  | [] => [stint]
  | s :: rest => if s.finish ≤ stint.finish then s :: insert stint rest else stint :: s :: rest

theorem length_insert (stint : Stint α) (stints : List (Stint α)) :
    (insert stint stints).length = stints.length + 1 := by
  induction stints with
  | nil => rfl
  | cons s rest ih => simp only [insert]; split <;> simp [ih]

/-- A job takes a slot. -/
def seat (length : Nat → α → Nat) (s : Schedule α) (slots : Slots) (job : α) (waiting : List α) :
    Schedule α :=
  { s with
    slots := slots.enter
    waiting
    holding := insert ⟨job, s.now, s.now + length s.now job⟩ s.holding }

/-- A job gives its slot back. -/
def dismiss (s : Schedule α) (stint : Stint α) (holding : List (Stint α)) : Schedule α :=
  { s with
    now := max s.now stint.finish
    slots := s.slots.leave.release
    holding
    finished := stint :: s.finished }

/-- The job that waits first takes a slot, if there is a job and a slot. -/
def seat? (length : Nat → α → Nat) (s : Schedule α) : Option (Schedule α) :=
  match s.waiting with
  | [] => none
  | job :: waiting => s.slots.acquire?.map fun slots => s.seat length slots job waiting

/-- The job that finishes first gives its slot back, if it finishes by a time. -/
def dismissBy? (s : Schedule α) (time : Nat) : Option (Schedule α) :=
  match s.holding with
  | [] => none
  | stint :: holding => if stint.finish ≤ time then some (s.dismiss stint holding) else none

/-- The job that finishes first gives its slot back. -/
def dismissNext? (s : Schedule α) : Option (Schedule α) :=
  match s.holding with
  | [] => none
  | stint :: holding => some (s.dismiss stint holding)

/-- The next move: a job that is due gives its slot back, or else a waiting job takes a slot, or
else time moves on to the next finish. -/
def step (length : Nat → α → Nat) (s : Schedule α) : Option (Schedule α) :=
  (s.dismissBy? s.now).or ((s.seat? length).or s.dismissNext?)

/-- The number of moves that are left, at most. -/
def movesLeft (s : Schedule α) : Nat := 2 * s.waiting.length + s.holding.length

theorem movesLeft_dismiss_lt {s : Schedule α} {stint : Stint α} {holding : List (Stint α)}
    (h : s.holding = stint :: holding) : (s.dismiss stint holding).movesLeft < s.movesLeft := by
  simp [movesLeft, dismiss, h]

theorem movesLeft_step_lt {length : Nat → α → Nat} {s s' : Schedule α} (h : s.step length = some s') :
    s'.movesLeft < s.movesLeft := by
  simp only [step, Option.or_eq_some_iff] at h
  rcases h with h | ⟨-, h | ⟨-, h⟩⟩
  · unfold dismissBy? at h
    split at h
    · simp at h
    · rename_i hs
      split at h
      · simp only [Option.some.injEq] at h; subst h; exact movesLeft_dismiss_lt hs
      · simp at h
  · unfold seat? at h
    split at h
    · simp at h
    · rename_i hs
      simp only [Option.map_eq_some_iff] at h
      obtain ⟨slots, -, rfl⟩ := h
      simp only [movesLeft, seat, length_insert, hs, List.length_cons]
      omega
  · unfold dismissNext? at h
    split at h
    · simp at h
    · rename_i hs
      simp only [Option.some.injEq] at h; subst h; exact movesLeft_dismiss_lt hs

def run (length : Nat → α → Nat) (s : Schedule α) : Schedule α :=
  match _h : s.step length with
  | none => s
  | some s' => run length s'
termination_by s.movesLeft
decreasing_by exact movesLeft_step_lt _h

/-- The stints in the order of their finish times. -/
def stints (s : Schedule α) : List (Stint α) := s.finished.reverse

/-- The schedule of some jobs, run to its end. -/
def ofJobs (limit : Nat) (length : Nat → α → Nat) (jobs : List α) : Schedule α :=
  (start limit jobs).run length

end Schedule

end MarketLoad
