import MarketLoad.Export
import MarketLoad.Record.Reports

/-! # Records of exports -/

namespace MarketLoad

instance : Recorded RunParameters where
  toRecord p := .record
    [("endpoint", toRecord p.endpoint), ("traders", toRecord p.traders),
      ("duration", toRecord p.duration), ("interval", toRecord p.interval),
      ("max_concurrency", toRecord p.limit), ("seed", toRecord p.seed)]
  ofRecord? j := do
    let [endpoint, traders, duration, interval, limit, seed] ←
      j.fields? ["endpoint", "traders", "duration", "interval", "max_concurrency", "seed"] | none
    return { endpoint := ← Json.required endpoint, traders := ← Json.required traders,
             duration := ← Json.required duration, interval := ← Json.required interval,
             limit := ← Json.required limit, seed := ← Json.optional seed }

instance : Recorded Export where
  toRecord e := .record
    [("version", toRecord e.version), ("run_id", toRecord e.id),
      ("generated_at", toRecord e.time), ("parameters", toRecord e.parameters),
      ("peak_concurrency", toRecord e.peak), ("report", toRecord e.report),
      ("outcomes", toRecord e.outcomes)]
  ofRecord? j := do
    let [version, id, time, parameters, peak, report, outcomes] ←
      j.fields? ["version", "run_id", "generated_at", "parameters", "peak_concurrency", "report",
        "outcomes"] | none
    return { version := ← Json.required version, id := ← Json.required id,
             time := ← Json.required time, parameters := ← Json.required parameters,
             peak := ← Json.required peak, report := ← Json.required report,
             outcomes := ← Json.required outcomes }

/-- The export as it is written to a file. -/
def Export.text (e : Export) : String := (toRecord e).pretty

end MarketLoad
