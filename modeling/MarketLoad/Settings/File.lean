import MarketLoad.Settings.Basic
import MarketLoad.Text.Utf8
import MarketLoad.Toml.Reader

/-! # Settings files

A settings file is a TOML text with the sections `general`, `session` and `timeouts` and a list
of symbols. Each section is a table, or an array of its fields in their order; what is missing
takes its standard value, and members nobody asks for are passed over. -/

namespace MarketLoad

namespace Toml

/-- The values of the named fields of a section, in the order of the names. -/
def fields? (names : List String) : Toml → Option (List (Option Toml))
  | .table members => some (names.map fun name => members.lookup name)
  | .array items => some ((List.range names.length).map fun i => items[i]?)
  | .date => some (names.map fun _ => none)
  | _ => none

def string? : Toml → Option String
  | .string s => some s
  | _ => none

def int? : Toml → Option Int
  | .integer n => some n
  | _ => none

def natBelow? (limit : Nat) (v : Toml) : Option Nat :=
  match v.int? with
  | some (.ofNat n) => if n < limit then some n else none
  | _ => none

def number? : Toml → Option Binary64
  | .integer n => some (.ofInt n)
  | .float x => some x
  | _ => none

/-- A decimal: a text, an integer, or a float by its shortest digits. -/
def decimal? : Toml → Option Decimal
  | .string s => Decimal.read? s
  | .integer n => Decimal.ofInt? n 0
  | .float x => Decimal.readRounded? x.plain
  | _ => none

/-- The value of a field, read if it is there and the standard value otherwise. -/
def orElse {α : Type} (read? : Toml → Option α) (standard : α) : Option Toml → Option α
  | none => some standard
  | some v => read? v

end Toml

/-- The contents of a settings file before they are checked. -/
structure SettingsFile where
  host : String
  port : UInt16
  traders : UInt64
  stem : String
  limit : UInt64
  seed : Option UInt64
  logLevel : String
  duration : Binary64
  interval : Binary64
  shape : FlowShape
  timeouts : Timeouts
  /-- The symbols with their prices, as they are written. -/
  symbols : List (String × Decimal)

namespace SettingsFile

open Toml

def count? (v : Toml) : Option UInt64 := (v.natBelow? UInt64.size).map UInt64.ofNat

def quantity? (v : Toml) : Option UInt32 := (v.natBelow? UInt32.size).map UInt32.ofNat

def millis? (v : Toml) : Option Span := (v.natBelow? UInt64.size).map Span.ofMillis

def symbol? (v : Toml) : Option (String × Decimal) := do
  let [some ticker, some price] ← v.fields? ["symbol", "base_price"] | none
  return (← ticker.string?, ← price.decimal?)

def symbols? : Toml → Option (List (String × Decimal))
  | .array items => items.mapM symbol?
  | _ => none

def ofToml? (root : Toml) : Option SettingsFile := do
  let [general, session, timeouts, symbols] ←
    root.fields? ["general", "session", "timeouts", "symbols"] | none
  let [host, port, traders, stem, limit, seed, logLevel] ←
    (general.getD (.table [])).fields?
      ["host", "port", "traders", "trader_prefix", "max_concurrency", "seed", "log_level"] | none
  let [duration, interval, maxJitter, minQuantity, maxQuantity] ←
    (session.getD (.table [])).fields?
      ["duration_secs", "interval_secs", "max_jitter_bps", "min_quantity", "max_quantity"] | none
  let [connect, registerAck, send, drain] ←
    (timeouts.getD (.table [])).fields?
      ["connect_ms", "register_ack_ms", "send_ms", "drain_ms"] | none
  let standard := Settings.standard
  return {
    host := ← orElse string? standard.endpoint.host host
    port := ← orElse (fun v => (v.natBelow? UInt16.size).map UInt16.ofNat) standard.endpoint.port port
    traders := ← orElse count? standard.traders traders
    stem := ← orElse string? standard.stem stem
    limit := ← orElse count? standard.limit limit
    seed := ← orElse (fun v => (count? v).map some) standard.seed seed
    logLevel := ← orElse string? standard.logLevel logLevel
    duration := ← orElse number? (.ofNat 60) duration
    interval := ← orElse number? (.ofNat 2) interval
    shape :=
      { maxJitter := ← orElse (fun v => v.int?.map Int64.ofInt) standard.shape.maxJitter maxJitter
        minQuantity := ← orElse quantity? standard.shape.minQuantity minQuantity
        maxQuantity := ← orElse quantity? standard.shape.maxQuantity maxQuantity }
    timeouts :=
      { connect := ← orElse millis? standard.timeouts.connect connect
        registerAck := ← orElse millis? standard.timeouts.registerAck registerAck
        send := ← orElse millis? standard.timeouts.send send
        drain := ← orElse millis? standard.timeouts.drain drain }
    symbols := ← orElse symbols? [] symbols }

/-- The listing of a symbol in a settings file; the price is rounded first. -/
def listing (ticker : String) (price : Decimal) : Except BadSetting Listing :=
  match Symbol.ofTicker? ticker with
  | none => .error (.symbol ticker)
  | some symbol =>
    let basePrice := Price.ofDecimal price
    if basePrice.isPositive then .ok { symbol, basePrice } else .error (.basePrice symbol)

/-- The catalog of the symbols in a settings file. No symbols stand for the standard ones. -/
def catalog (symbols : List (String × Decimal)) : Except BadSetting Catalog :=
  if symbols.isEmpty then .ok .standard
  else (symbols.mapM fun (ticker, price) => listing ticker price).map Catalog.mk

def settings (f : SettingsFile) : Except SettingsError Settings := do
  let catalog ← (catalog f.symbols).mapError .invalid
  let duration ← Span.ofSeconds f.duration
  let interval ← Span.ofSeconds f.interval
  return { endpoint := { host := f.host, port := f.port }, traders := f.traders, stem := f.stem,
           duration, interval, limit := f.limit, seed := f.seed, logLevel := f.logLevel,
           timeouts := f.timeouts, shape := f.shape, catalog }

end SettingsFile

namespace Settings

def ofText (text : String) : Except SettingsError Settings :=
  match (Toml.parse? text).bind SettingsFile.ofToml? with
  | none => .error .malformed
  | some file => file.settings

/-- Reads a settings file by its bytes, if it has any. -/
def ofFile (path : String) (content : Except FileTrouble Bytes) : Except SettingsError Settings :=
  match content with
  | .error trouble => .error (.unreadable path trouble)
  | .ok bytes =>
    match Utf8.strict? bytes with
    | none => .error (.unreadable path .notText)
    | some text => ofText text

end Settings

end MarketLoad
