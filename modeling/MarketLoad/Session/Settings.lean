import MarketLoad.Endpoint
import MarketLoad.OrderFlow
import MarketLoad.Span

/-! # Settings of a session -/

namespace MarketLoad

/-- The deadlines of the steps at which a session waits. -/
structure Timeouts where
  /-- For establishing the connection. -/
  connect : Span
  /-- For the acknowledgement of the registration. -/
  registerAck : Span
  /-- For writing one command. -/
  send : Span
  /-- For the reply to an order. -/
  drain : Span
deriving DecidableEq, Repr

/-- The timeouts of a run that does not choose any. -/
def Timeouts.standard : Timeouts :=
  { connect := .ofMillis 5000, registerAck := .ofMillis 1000, send := .ofMillis 1000,
    drain := .ofMillis 100 }

/-- Everything one session is started with. -/
structure SessionSettings where
  trader : Trader
  endpoint : Endpoint
  /-- The length of the trading window. -/
  duration : Span
  /-- The time between orders. -/
  interval : Span
  catalog : Catalog
  shape : FlowShape
  timeouts : Timeouts
  /-- The seed of the order flow, if the run is to be repeatable. -/
  seed : Option UInt64
deriving DecidableEq, Repr

namespace SessionSettings

/-- A session of a minute with an order every two seconds. -/
def standard (trader : Trader) (endpoint : Endpoint) (catalog : Catalog) : SessionSettings :=
  { trader, endpoint, duration := .ofMillis 60000, interval := .ofMillis 2000, catalog,
    shape := .standard, timeouts := .standard, seed := none }

/-- The order flow of the session. Without a seed of its own it has the flow of seed zero. -/
def flow (s : SessionSettings) : OrderFlow := .ofSeed s.catalog s.shape (s.seed.getD 0)

/-- The most order cycles that the trading window holds: one at its start and one for each
whole interval, as far as 64 bits count them. -/
def maxCycles (s : SessionSettings) : UInt64 :=
  if s.interval.nanos = 0 then 1
  else UInt64.ofNat (min (s.duration.nanos / s.interval.nanos + 1) (UInt64.size - 1))

end SessionSettings

end MarketLoad
