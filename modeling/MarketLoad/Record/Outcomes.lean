import MarketLoad.Outcome
import MarketLoad.Record.Orders
import MarketLoad.Record.Times
import MarketLoad.Session.Phase

/-! # Records of outcomes

Failures are recorded by their names with their contents, latencies bucket by bucket. -/

namespace MarketLoad

instance : Recorded Phase where
  toRecord p := .text p.name
  ofRecord? := Json.ofNames? Phase.names

/-- The record of an alternative whose content is a reason. -/
def Json.reasoned (name reason : String) : Json :=
  .record [(name, .record [("reason", .text reason)])]

/-- The only text among the fields of an alternative. -/
def Json.onlyText? (field : String) (content : Option Json) : Option String := do
  let [text] ← (← content).fields? [field] | none
  Json.required text

instance : Recorded RegistrationFailure where
  toRecord
    | .timeout => .text "Timeout"
    | .unrecognized response => .record [("Unrecognized", .record [("response", .text response)])]
    | .closed => .text "Closed"
    | .io reason => .reasoned "Io" reason
  ofRecord? j := do
    let (name, content) ← j.alternative?
    if name = "Unrecognized" then
      return .unrecognized (← Json.onlyText? "response" content)
    else if name = "Io" then
      return .io (← Json.onlyText? "reason" content)
    else
      Json.ofNames? [("Timeout", .timeout), ("Closed", .closed)] j

instance : Recorded SessionFailure where
  toRecord
    | .connect endpoint reason =>
      .record [("Connect", .record [("endpoint", .text endpoint), ("reason", .text reason)])]
    | .registration cause => .record [("Registration", toRecord cause)]
    | .send reason => .reasoned "Send" reason
    | .drain reason => .reasoned "Drain" reason
    | .worker reason => .reasoned "WorkerFault" reason
  ofRecord? j := do
    let (name, content) ← j.alternative?
    if name = "Connect" then
      let [endpoint, reason] ← (← content).fields? ["endpoint", "reason"] | none
      return .connect (← Json.required endpoint) (← Json.required reason)
    else if name = "Registration" then
      return .registration (← ofRecord? (← content))
    else if name = "Send" then
      return .send (← Json.onlyText? "reason" content)
    else if name = "Drain" then
      return .drain (← Json.onlyText? "reason" content)
    else if name = "WorkerFault" then
      return .worker (← Json.onlyText? "reason" content)
    else none

instance : Recorded Bucket where
  toRecord b := .record
    [("label", toRecord b.label), ("lower_us", toRecord b.lower), ("upper_us", toRecord b.upper),
      ("count", toRecord b.count)]
  ofRecord? j := do
    let [label, lower, upper, count] ← j.fields? ["label", "lower_us", "upper_us", "count"] | none
    return { label := ← Json.required label, lower := ← Json.required lower,
             upper := ← Json.required upper, count := ← Json.required count }

instance : Recorded Histogram where
  toRecord h := .record [("buckets", toRecord h.buckets)]
  ofRecord? j := do
    let [buckets] ← j.fields? ["buckets"] | none
    return { buckets := ← Json.required buckets }

instance : Recorded Outcome where
  toRecord o := .record
    [("trader_id", toRecord o.trader), ("orders_sent", toRecord o.sent),
      ("orders_skipped", toRecord o.skipped), ("elapsed", toRecord o.elapsed),
      ("success", toRecord o.success), ("registered", toRecord o.registered),
      ("latency", toRecord o.latency), ("failure", toRecord o.failure)]
  ofRecord? j := do
    let [trader, sent, skipped, elapsed, success, registered, latency, failure] ←
      j.fields? ["trader_id", "orders_sent", "orders_skipped", "elapsed", "success", "registered",
        "latency", "failure"] | none
    return { trader := ← Json.required trader, sent := ← Json.required sent,
             skipped := ← Json.required skipped, elapsed := ← Json.required elapsed,
             success := ← Json.required success, registered := ← Json.required registered,
             latency := ← Json.required latency, failure := ← Json.optional failure }

instance : Recorded Exchange where
  toRecord e := .record [("command", toRecord e.command), ("response", toRecord e.response)]
  ofRecord? j := do
    let [command, response] ← j.fields? ["command", "response"] | none
    return { command := ← Json.required command, response := ← Json.optional response }

instance : Recorded Transcript where
  toRecord t := .record
    [("trader_id", toRecord t.trader), ("registration", toRecord t.registration),
      ("orders", toRecord t.orders), ("notifications", toRecord t.notifications)]
  ofRecord? j := do
    let [trader, registration, orders, notifications] ←
      j.fields? ["trader_id", "registration", "orders", "notifications"] | none
    return { trader := ← Json.required trader, registration := ← Json.required registration,
             orders := ← Json.required orders, notifications := ← Json.required notifications }

end MarketLoad
