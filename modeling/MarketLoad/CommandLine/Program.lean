import MarketLoad.CommandLine.Arguments
import MarketLoad.CommandLine.Notice
import MarketLoad.Export
import MarketLoad.Script
import MarketLoad.Settings.File

/-! # The program

What the program does for a request, given the file that the request names, and the peer that
answers at each endpoint. Everything it prints is part of the result. -/

namespace MarketLoad.CommandLine

open Venue

/-- An error that ends the program. -/
structure Complaint where
  text : String
  cause : Option String
deriving DecidableEq, Repr

namespace Complaint

def render (c : Complaint) : String :=
  "Error: " ++ c.text ++
    match c.cause with
    | none => ""
    | some cause => "\n\nCaused by:\n    " ++ cause

/-- Settings that could not be had. -/
def ofSettings (e : SettingsError) : Complaint :=
  { text := e.message
    cause := match e with
      | .unreadable _ trouble => some trouble.message
      | .malformed | .invalid _ => none }

/-- Settings that make no run. -/
def ofSessions (e : SettingsError) : Complaint :=
  { text := "invalid run configuration", cause := some e.message }

/-- An export that could not be written. -/
def ofExport (path : String) (trouble : FileTrouble) : Complaint :=
  { text := "failed to write " ++ Text.quoted path, cause := some trouble.message }

end Complaint

/-- What the program came to. -/
structure Completion where
  exitCode : UInt8
  notices : List Notice
  output : List String
  complaint : Option String
deriving DecidableEq, Repr

namespace Completion

/-- The end of a program that did what it was asked. -/
def success (notices : List Notice) (output : List String) : Completion :=
  { exitCode := 0, notices, output, complaint := none }

/-- The end of a program by an error. -/
def failure (notices : List Notice) (output : List String) (c : Complaint) : Completion :=
  { exitCode := 1, notices, output, complaint := some c.render }

/-- The end of a program that was not asked properly. -/
def misuse (e : UsageError) : Completion :=
  { exitCode := 2, notices := [], output := [], complaint := some ("error: " ++ e.message) }

/-- The end of a program by a fault. -/
def crash (notices : List Notice) (fault : Fault) : Completion :=
  { exitCode := 101, notices, output := [], complaint := some fault.message }

end Completion

/-! ## Running many traders -/

/-- A run that has ended, before its export is written. -/
structure Finished where
  logLevel : LogLevel
  notices : List Notice
  output : List String
  parameters : RunParameters
  report : Report
  outcomes : List Outcome
  peak : UInt64

/-- The settings of a run: those of the file with those of the command line over them. -/
def RunRequest.settings (r : RunRequest) (logLevel : Option String)
    (file : Except FileTrouble Bytes) : Except SettingsError Settings := do
  let base ← match r.settingsPath with
    | none => .ok Settings.standard
    | some path => Settings.ofFile path file
  let duration ← r.duration.mapM Span.ofSeconds
  let interval ← r.interval.mapM Span.ofSeconds
  return base.override
    { host := r.host, port := r.port, traders := r.traders, duration, interval, limit := r.limit,
      seed := r.seed, logLevel }

/-- The parameters of a run as its export keeps them. -/
def parameters (s : Settings) : RunParameters :=
  { endpoint := s.endpoint.text, traders := s.traders, duration := s.duration,
    interval := s.interval, limit := s.limit, seed := s.seed }

/-- Runs the sessions of some settings against the peer of their endpoint. -/
def finish (s : Settings) (sessions : List SessionSettings) (network : Endpoint → Peer) :
    Except Fault Finished := do
  let result :=
    Run.perform (Slots.effectiveLimit s.limit.toNat)
      (sessions.map fun session => ⟨session, network session.endpoint⟩)
  let report ← (← result.totals).finish result.wall
  let output := [← report.render]
  return { logLevel := .ofName s.logLevel
           notices := ⟨.info, "starting simulation"⟩ :: Notice.ofRun result
           output, parameters := parameters s, report, outcomes := result.outcomes
           peak := UInt64.ofNat result.peak }

/-- Runs many traders: the finished run, or how the program ended early. -/
def run (logLevel : Option String) (r : RunRequest) (file : Except FileTrouble Bytes)
    (network : Endpoint → Peer) : Except Completion Finished :=
  match r.settings logLevel file with
  | .error e => .error (.failure [] [] (.ofSettings e))
  | .ok s =>
    match s.sessions with
    | .error e => .error (.failure [] [] (.ofSessions e))
    | .ok sessions => (finish s sessions network).mapError (.crash [])

namespace Finished

def toExport (f : Finished) (id : RunId) (time : Timestamp) : Export :=
  .ofRun id time f.parameters f.report f.outcomes f.peak

/-- The end of a run without an export. -/
def complete (f : Finished) : Completion := .success (Notice.atLeast f.logLevel f.notices) f.output

/-- The end of a run after its export was written, or could not be. -/
def completeExport (f : Finished) (path : String) (trouble : Option FileTrouble) : Completion :=
  match trouble with
  | none =>
    .success (Notice.atLeast f.logLevel (f.notices ++ [⟨.info, "run exported"⟩])) f.output
  | some trouble =>
    .failure (Notice.atLeast f.logLevel f.notices) f.output (.ofExport path trouble)

end Finished

/-! ## Submitting a script -/

/-- The lines of a command and the text that came after it. -/
def exchangeLines (e : Exchange) : List String :=
  ["> " ++ Text.trimEnd e.command,
    match e.response with
    | some response => "< " ++ response
    | none => "< (no response)"]

def transcriptLines (t : Transcript) : List String :=
  let rule := String.ofList (List.replicate 60 '=')
  [rule, "Scripted submission for " ++ t.trader.name, rule] ++
    (t.registration :: t.orders).flatMap exchangeLines ++
    t.notifications.map ("! " ++ ·) ++ [rule]

/-- Submits the standard script for one trader. -/
def submit (logLevel : Option String) (r : SubmitRequest) (network : Endpoint → Peer) :
    Completion :=
  match Trader.ofName? r.trader with
  | none =>
    .failure [] [] { text := "invalid trader id " ++ Text.quoted r.trader, cause := none }
  | some trader =>
    let endpoint : Endpoint := { host := r.host, port := r.port }
    match (Script.course endpoint trader Script.standard .standard (network endpoint)).result with
    | .error fault => .crash [] fault
    | .ok (.error failure) => .failure [] [] { text := failure.message, cause := none }
    | .ok (.ok transcript) =>
      .success
        (Notice.atLeast (.ofName (logLevel.getD "info"))
          [⟨.info, trader.name ++ ": connected"⟩, ⟨.info, trader.name ++ ": disconnected"⟩])
        (transcriptLines transcript)

/-! ## Help -/

/-- The words of a command line that the program understands. -/
def helpLines : List String :=
  ["Usage: run [--config FILE] [--host HOST] [--port PORT] [--traders N] [--duration SECONDS]",
    "           [--interval SECONDS] [--workers N] [--seed N] [--json FILE] [--log-level LEVEL]",
    "       submit [--host HOST] [--port PORT] [--trader NAME] [--log-level LEVEL]"]

def versionLine : String := "trader-sim " ++ Export.formVersion

end MarketLoad.CommandLine
