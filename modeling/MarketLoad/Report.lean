import MarketLoad.Outcome

/-! # Reports

Outcomes are folded into totals, and the totals of a finished run are frozen into a report.
Folding only adds, so the totals do not depend on the order in which sessions finish. -/

namespace MarketLoad

/-- Sums over outcomes. -/
structure Totals where
  sessions : UInt64
  successful : UInt64
  registered : UInt64
  orders : UInt64
  skipped : UInt64
  latency : Histogram
deriving DecidableEq, Repr

/-- The summary of a run. -/
structure Report where
  sessions : UInt64
  successful : UInt64
  failed : UInt64
  registered : UInt64
  orders : UInt64
  skipped : UInt64
  wall : Span
  /-- Orders per second of the run. -/
  throughput : Binary64
  /-- Orders per successful session. -/
  perSuccess : Binary64
  latency : Histogram
deriving DecidableEq, Repr

namespace Totals

def empty : Totals :=
  { sessions := 0, successful := 0, registered := 0, orders := 0, skipped := 0,
    latency := .empty }

def record (t : Totals) (o : Outcome) : Except Fault Totals := do
  let sessions ← addCounters t.sessions 1
  let successful ← addCounters t.successful (if o.success then 1 else 0)
  let registered ← addCounters t.registered (if o.registered then 1 else 0)
  let orders ← addCounters t.orders o.sent
  let skipped ← addCounters t.skipped o.skipped
  let latency ← t.latency.merge o.latency
  return { sessions, successful, registered, orders, skipped, latency }

def recordAll (t : Totals) (outcomes : List Outcome) : Except Fault Totals :=
  outcomes.foldlM record t

def merge (t other : Totals) : Except Fault Totals := do
  let sessions ← addCounters t.sessions other.sessions
  let successful ← addCounters t.successful other.successful
  let registered ← addCounters t.registered other.registered
  let orders ← addCounters t.orders other.orders
  let skipped ← addCounters t.skipped other.skipped
  let latency ← t.latency.merge other.latency
  return { sessions, successful, registered, orders, skipped, latency }

/-- Orders per second; none in no time. -/
def throughput (t : Totals) (wall : Span) : Binary64 :=
  if wall.toSeconds.isPositive then (Binary64.ofNat t.orders.toNat).div wall.toSeconds
  else .zero false

/-- Orders per successful session; none without one. -/
def perSuccess (t : Totals) : Binary64 :=
  if 0 < t.successful then
    (Binary64.ofNat t.orders.toNat).div (.ofNat t.successful.toNat)
  else .zero false

/-- The report of a run that took `wall`. -/
def finish (t : Totals) (wall : Span) : Except Fault Report :=
  if t.successful ≤ t.sessions then
    .ok
      { sessions := t.sessions, successful := t.successful,
        failed := t.sessions - t.successful, registered := t.registered, orders := t.orders,
        skipped := t.skipped, wall, throughput := t.throughput wall,
        perSuccess := t.perSuccess, latency := t.latency }
  else .error .subOverflow

end Totals

namespace Report

def ofOutcomes (outcomes : List Outcome) (wall : Span) : Except Fault Report := do
  (← Totals.empty.recordAll outcomes).finish wall

/-- A counter in decimal. -/
def countText (n : UInt64) : String := String.ofList (Text.digits n.toNat)

/-- A line across the report. -/
def rule : String := String.ofList (List.replicate 70 '=')

/-- The lines of the printed report. Latencies are shown if there are any. -/
def lines (r : Report) : Except Fault (List String) := do
  let samples ← r.latency.total
  return [
    rule,
    "Simulation Complete",
    rule,
    "Successful traders:          " ++ countText r.successful,
    "Failed traders:              " ++ countText r.failed,
    "Registration confirmed:      " ++ countText r.registered,
    "Total time:                  " ++ r.wall.toSeconds.fixed 2 ++ " seconds",
    "Total orders submitted:      " ++ countText r.orders,
    "Orders skipped (I/O faults): " ++ countText r.skipped,
    "Average orders per trader:   " ++ r.perSuccess.fixed 1,
    "Orders per second:           " ++ r.throughput.fixed 1]
    ++ (if 0 < samples then ["Round-trip latency:", r.latency.summary] else [])
    ++ [rule]

def render (r : Report) : Except Fault String := do
  return "\n".intercalate (← r.lines)

end Report

end MarketLoad
