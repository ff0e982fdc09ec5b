import MarketLoad.Session.Settings
import MarketLoad.Settings.Error

/-! # Settings of a run

The settings of a run, and the sessions that they make. A run of `n` traders has the sessions
of the traders `1 … n`, whose names are the number after a common stem. With a seed for the run
each session has a seed of its own, the run's plus its number. -/

namespace MarketLoad

structure Settings where
  endpoint : Endpoint
  traders : UInt64
  /-- What the names of the traders start with. -/
  stem : String
  duration : Span
  interval : Span
  /-- The most sessions at a time. -/
  limit : UInt64
  seed : Option UInt64
  logLevel : String
  timeouts : Timeouts
  shape : FlowShape
  catalog : Catalog
deriving DecidableEq, Repr

/-- Settings that take precedence over others. -/
structure Overrides where
  host : Option String
  port : Option UInt16
  traders : Option UInt64
  duration : Option Span
  interval : Option Span
  limit : Option UInt64
  seed : Option UInt64
  logLevel : Option String
deriving DecidableEq, Repr

/-- A number of seconds as a span. -/
def Span.ofSeconds (value : Binary64) : Except SettingsError Span :=
  match Span.ofSeconds? value with
  | some span => .ok span
  | none => .error (.invalid (.seconds value))

namespace Settings

/-- The settings of a run that makes no choice. -/
def standard : Settings :=
  { endpoint := { host := "127.0.0.1", port := 8888 }, traders := 100, stem := "trader",
    duration := .ofMillis 60000, interval := .ofMillis 2000, limit := 20, seed := none,
    logLevel := "info", timeouts := .standard, shape := .standard, catalog := .standard }

def override (s : Settings) (o : Overrides) : Settings :=
  { s with
    endpoint := { host := o.host.getD s.endpoint.host, port := o.port.getD s.endpoint.port }
    traders := o.traders.getD s.traders
    duration := o.duration.getD s.duration
    interval := o.interval.getD s.interval
    limit := o.limit.getD s.limit
    seed := o.seed.or s.seed
    logLevel := o.logLevel.getD s.logLevel }

/-- The name of the trader of a number. -/
def traderName (s : Settings) (index : Nat) : String :=
  s.stem ++ String.ofList (Text.digits index)

/-- The first setting that a run cannot work with. -/
def fault? (s : Settings) : Option BadSetting :=
  if s.endpoint.host.isEmpty then some .emptyHost
  else if s.interval.nanos = 0 then some .zeroInterval
  else if s.limit = 0 then some .zeroLimit
  else if s.catalog.isEmpty then some .emptyCatalog
  else if s.shape.minQuantity = 0 ∨ s.shape.maxQuantity < s.shape.minQuantity then
    some (.quantityRange s.shape.minQuantity s.shape.maxQuantity)
  else if s.shape.maxJitter < 0 ∨ 10000 ≤ s.shape.maxJitter then some .jitter
  else if 0 < s.traders ∧ (Trader.ofName? (s.traderName 1)).isNone then some (.stem s.stem)
  else none

/-- Whether a run can work with the settings. -/
def validate (s : Settings) : Except SettingsError Unit :=
  match s.fault? with
  | none => .ok ()
  | some setting => .error (.invalid setting)

/-- The session of the trader of a number. -/
def session (s : Settings) (index : Nat) : Except SettingsError SessionSettings :=
  match Trader.ofName? (s.traderName index) with
  | none => .error (.invalid (.trader index))
  | some trader =>
    .ok { trader, endpoint := s.endpoint, duration := s.duration, interval := s.interval,
          catalog := s.catalog, shape := s.shape, timeouts := s.timeouts,
          seed := s.seed.map (· + UInt64.ofNat index) }

/-- The sessions of a run, in the order of their traders' numbers. -/
def sessions (s : Settings) : Except SettingsError (List SessionSettings) := do
  s.validate
  (List.range' 1 s.traders.toNat).mapM s.session

end Settings

end MarketLoad
