import MarketLoad.Json.Binary64
import MarketLoad.Record.Outcomes
import MarketLoad.Report

/-! # Records of reports -/

namespace MarketLoad

instance : Recorded Totals where
  toRecord t := .record
    [("sessions", toRecord t.sessions), ("successful", toRecord t.successful),
      ("registered", toRecord t.registered), ("total_orders", toRecord t.orders),
      ("skipped_orders", toRecord t.skipped), ("latency", toRecord t.latency)]
  ofRecord? j := do
    let [sessions, successful, registered, orders, skipped, latency] ←
      j.fields? ["sessions", "successful", "registered", "total_orders", "skipped_orders",
        "latency"] | none
    return { sessions := ← Json.required sessions, successful := ← Json.required successful,
             registered := ← Json.required registered, orders := ← Json.required orders,
             skipped := ← Json.required skipped, latency := ← Json.required latency }

instance : Recorded Report where
  toRecord r := .record
    [("sessions", toRecord r.sessions), ("successful", toRecord r.successful),
      ("failed", toRecord r.failed), ("registered", toRecord r.registered),
      ("total_orders", toRecord r.orders), ("skipped_orders", toRecord r.skipped),
      ("wall_clock", toRecord r.wall), ("throughput", toRecord r.throughput),
      ("average_per_success", toRecord r.perSuccess), ("latency", toRecord r.latency)]
  ofRecord? j := do
    let [sessions, successful, failed, registered, orders, skipped, wall, throughput, perSuccess,
        latency] ←
      j.fields? ["sessions", "successful", "failed", "registered", "total_orders",
        "skipped_orders", "wall_clock", "throughput", "average_per_success", "latency"] | none
    return { sessions := ← Json.required sessions, successful := ← Json.required successful,
             failed := ← Json.required failed, registered := ← Json.required registered,
             orders := ← Json.required orders, skipped := ← Json.required skipped,
             wall := ← Json.required wall, throughput := ← Json.required throughput,
             perSuccess := ← Json.required perSuccess, latency := ← Json.required latency }

end MarketLoad
