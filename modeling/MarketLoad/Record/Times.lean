import MarketLoad.Json.Recorded
import MarketLoad.RunId
import MarketLoad.Script
import MarketLoad.Session.Settings
import MarketLoad.Timestamp

/-! # Records of times

A span is recorded as whole seconds and the nanoseconds past them. Reading takes any 32-bit
number of nanoseconds and refuses fields of other names. -/

namespace MarketLoad

instance : Recorded Span where
  toRecord s := .record [("secs", .ofNat s.seconds), ("nanos", .ofNat s.subNanos)]
  ofRecord? j := do
    let [some seconds, some nanos] ← j.exactFields? ["secs", "nanos"] | none
    Span.ofParts? (← seconds.natBelow? UInt64.size) (← nanos.natBelow? UInt32.size)

instance : Recorded RunId where
  toRecord id := .text id.text
  ofRecord? j := (ofRecord? j).bind RunId.ofText?

instance : Recorded Timestamp where
  toRecord t := .text t.text
  ofRecord? j := (ofRecord? j).bind Timestamp.ofText?

instance : Recorded Timeouts where
  toRecord t := .record
    [("connect", toRecord t.connect), ("register_ack", toRecord t.registerAck),
      ("send", toRecord t.send), ("drain", toRecord t.drain)]
  ofRecord? j := do
    let [connect, registerAck, send, drain] ←
      j.fields? ["connect", "register_ack", "send", "drain"] | none
    return { connect := ← Json.required connect, registerAck := ← Json.required registerAck,
             send := ← Json.required send, drain := ← Json.required drain }

instance : Recorded ScriptTiming where
  toRecord t := .record
    [("connect", toRecord t.connect), ("send", toRecord t.send),
      ("response_wait", toRecord t.responseWait), ("pause", toRecord t.pause),
      ("listen", toRecord t.listen)]
  ofRecord? j := do
    let [connect, send, responseWait, pause, listen] ←
      j.fields? ["connect", "send", "response_wait", "pause", "listen"] | none
    return { connect := ← Json.required connect, send := ← Json.required send,
             responseWait := ← Json.required responseWait, pause := ← Json.required pause,
             listen := ← Json.required listen }

end MarketLoad
