import MarketLoad.Report
import MarketLoad.RunId
import MarketLoad.Timestamp

/-! # Exports

The export of a run holds its parameters, its report and its outcomes. Outcomes are sorted by
their traders, so that the order in which sessions finished leaves no trace. -/

namespace MarketLoad

/-- What a run was started with. -/
structure RunParameters where
  endpoint : String
  traders : UInt64
  duration : Span
  interval : Span
  limit : UInt64
  seed : Option UInt64
deriving DecidableEq, Repr

structure Export where
  version : String
  id : RunId
  time : Timestamp
  parameters : RunParameters
  peak : UInt64
  report : Report
  outcomes : List Outcome
deriving DecidableEq, Repr

namespace Export

/-- The version of the form of exports. -/
def formVersion : String := "1.0.0"

/-- Outcomes in the order of their traders' names; outcomes of one trader keep their order. -/
def sortOutcomes (outcomes : List Outcome) : List Outcome :=
  outcomes.mergeSort fun a b => a.trader.name ≤ b.trader.name

def ofRun (id : RunId) (time : Timestamp) (parameters : RunParameters) (report : Report)
    (outcomes : List Outcome) (peak : UInt64) : Export :=
  { version := formVersion, id, time, parameters, peak, report,
    outcomes := sortOutcomes outcomes }

end Export

end MarketLoad
