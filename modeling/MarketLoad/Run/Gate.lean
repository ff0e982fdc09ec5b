import MarketLoad.Run.Dispatch

/-! # The gate of a run

How the sessions of a run take their slots and give them back, one step of one session at a time. A
session asks for a slot and waits in a queue until it has one; it is then counted as active and runs
until it ends, in whichever way. What it has taken it gives back after that, the last thing first:
first its count, then its slot. A slot that is given back goes at once to the session that has
waited longest. Nothing but this restrains the order of the steps. -/

namespace MarketLoad

/-- What a session takes and has to give back. -/
inductive Guard
  | slot
  /-- Its part in the count of active sessions. -/
  | count
deriving DecidableEq, Repr

/-- Where a session stands. -/
inductive Stage
  /-- It has not asked for a slot. -/
  | coming
  /-- It has asked. It waits as long as it is in the queue and has a slot from then on. -/
  | asked
  /-- It is counted as active and runs. -/
  | inside
  /-- It has ended and still has these to give back, in this order. -/
  | ended (guards : List Guard)
deriving DecidableEq, Repr

/-- One step of a session, which is named by its place in the list of all sessions. -/
inductive Turn
  | ask (place : Nat)
  /-- A session that has a slot is counted as active. -/
  | enter (place : Nat)
  /-- A session ends. Its task is going to send an outcome or is lost. -/
  | finish (place : Nat) (ending : Ending)
  /-- A session gives something back. -/
  | drop (place : Nat) (guard : Guard)
deriving DecidableEq, Repr

namespace Turn

/-- The session that asks for a slot in a turn. -/
def asks? : Turn → Option Nat
  | ask place => some place
  | _ => none

/-- The outcome of a session that ends in a turn. -/
def outcome? : Turn → Option Outcome
  | finish _ (.sends outcome) => some outcome
  | _ => none

end Turn

/-- The gate of a run between two turns. -/
structure Gate where
  slots : Slots
  /-- The number of sessions. -/
  sessions : Nat
  stage : Nat → Stage
  /-- The sessions that wait for a slot, the one that has waited longest first. -/
  queue : List Nat

namespace Gate

/-- No session has asked for a slot. -/
def start (requested sessions : Nat) : Gate :=
  { slots := .idle (Slots.effectiveLimit requested), sessions, stage := fun _ => .coming,
    queue := [] }

/-- A session goes on to a stage. -/
def move (g : Gate) (place : Nat) (stage : Stage) : Gate :=
  { g with stage := fun p => if p = place then stage else g.stage p }

/-- The session that has waited longest takes a slot, if one is free. -/
def letIn (g : Gate) : Gate :=
  match g.queue with
  | [] => g
  | _ :: queue =>
    match g.slots.acquire? with
    | none => g
    | some slots => { g with slots, queue }

/-- Takes back what a session gives back. -/
def takeBack (g : Gate) : Guard → Gate
  | .count => { g with slots := g.slots.leave }
  | .slot => { g with slots := g.slots.release }.letIn

/-- The gate after a turn, if the turn is possible. -/
def step? (g : Gate) : Turn → Option Gate
  | .ask place =>
    if place < g.sessions ∧ g.stage place = .coming then
      some { g.move place .asked with queue := g.queue ++ [place] }.letIn
    else none
  | .enter place =>
    if g.stage place = .asked ∧ place ∉ g.queue then
      some { g.move place .inside with slots := g.slots.enter }
    else none
  | .finish place _ =>
    if g.stage place = .inside then some (g.move place (.ended [.count, .slot])) else none
  | .drop place guard =>
    match g.stage place with
    | .ended (first :: guards) =>
      if first = guard then some ((g.move place (.ended guards)).takeBack guard) else none
    | _ => none

/-- The gate after some turns, if they are possible. -/
def run? (g : Gate) : List Turn → Option Gate
  | [] => some g
  | turn :: turns => (g.step? turn).bind (·.run? turns)

/-- Whether all sessions have ended and given everything back. -/
def isDone (g : Gate) : Bool := (List.range g.sessions).all fun place => g.stage place = .ended []

end Gate

end MarketLoad
