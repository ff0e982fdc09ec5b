import MarketLoad.Report
import MarketLoad.Run.Collector
import MarketLoad.Run.Schedule
import MarketLoad.Session.Course

/-! # Runs

A run takes a list of sessions, each with the peer it will meet, through a limited number of
slots. A session takes its course from the time at which it gets its slot. -/

namespace MarketLoad

open Venue

/-- The outcome of a course. A fault that broke the worker becomes a failed outcome. -/
def Course.outcome (trader : Trader) (c : Course) : Outcome :=
  match c.result with
  | .ok outcome => outcome
  | .error fault => .untraded trader c.elapsed (.worker fault.message)

/-- A session of a run. -/
structure Entrant where
  settings : SessionSettings
  peer : Peer
deriving DecidableEq, Repr

/-- A session of a run with its course. -/
structure Visit where
  entrant : Entrant
  course : Course

namespace Visit

/-- Runs a session by itself, from a time on. -/
def ofEntrant (start : Nat) (e : Entrant) : Visit :=
  ⟨e, Session.course start e.settings e.peer⟩

/-- The time for which the session holds its slot. -/
def length (v : Visit) : Nat := v.course.finish - v.course.start

/-- The outcome that the session delivers. -/
def outcome (v : Visit) : Outcome := v.course.outcome v.entrant.settings.trader

end Visit

/-- Everything a run came to. -/
structure RunResult where
  /-- The visits in the order of their ends. -/
  stints : List (Stint Visit)
  /-- One outcome for each session, in the same order. -/
  outcomes : List Outcome
  /-- The totals of the outcomes, added up as they came in. -/
  totals : Except Fault Totals
  /-- The time of the whole run. -/
  wall : Span
  /-- The most sessions that held a slot at once. -/
  peak : Nat

namespace Run

/-- Adds an outcome to totals that may have failed before. -/
def observe (totals : Except Fault Totals) (o : Outcome) : Except Fault Totals :=
  totals.bind (·.record o)

/-- Runs some sessions with at most `limit` of them at a time. -/
def perform (limit : Nat) (entrants : List Entrant) : RunResult :=
  let schedule := Schedule.ofJobs limit (fun start e => (Visit.ofEntrant start e).length) entrants
  let stints := schedule.stints.map fun s => { s with job := Visit.ofEntrant s.start s.job }
  let wall := Span.ofMillis schedule.now
  let collected :=
    Collector.collect observe (.ok .empty) (entrants.map (·.settings.trader))
      (stints.map (·.job.outcome)) wall
  { stints, outcomes := collected.outcomes, totals := collected.observed, wall,
    peak := schedule.slots.peak }

end Run

end MarketLoad
