import MarketLoad.Identity
import MarketLoad.Latency

/-! # Outcomes of sessions -/

namespace MarketLoad

/-- What one session came to. -/
structure Outcome where
  trader : Trader
  /-- Orders written in full. -/
  sent : UInt64
  /-- Order cycles that were lost. -/
  skipped : UInt64
  /-- From the start of connecting to the end. -/
  elapsed : Span
  /-- Whether the session traded. -/
  success : Bool
  /-- Whether its registration was acknowledged. -/
  registered : Bool
  latency : Histogram
  failure : Option SessionFailure
deriving DecidableEq, Repr

namespace Outcome

/-- The outcome of a session that never traded. -/
def untraded (trader : Trader) (elapsed : Span) (failure : SessionFailure) : Outcome :=
  { trader, sent := 0, skipped := 0, elapsed, success := false, registered := false,
    latency := .empty, failure := some failure }

/-- The outcome of a session that never traded; the failure must be a fatal one. -/
def failed (trader : Trader) (elapsed : Span) (failure : SessionFailure) : Except Fault Outcome :=
  if failure.isFatal then .ok (untraded trader elapsed failure) else .error (.notFatal failure)

end Outcome

end MarketLoad
