import MarketLoad.CommandLine.Program
import MarketLoad.Record.Exports
import Std.Time

/-! # The command line

Reads the settings file of a request, runs the program, writes the export, and prints. The program
has no network of its own: every endpoint is out of reach. -/

namespace MarketLoad.CommandLine

/-- The trouble of a refused file operation. -/
def troubleOf : IO.Error → FileTrouble
  | .noFileOrDirectory .. => .missing
  | .inappropriateType _ code _ => if code = 20 then .notDirectory else .directory
  | .resourceExhausted .. => .noRoom
  | .invalidArgument _ code _ => if code = 36 then .nameTooLong else .nullInName
  | _ => .directory

def readBytes (path : String) : IO (Except FileTrouble Bytes) := do
  try
    return .ok (← IO.FS.readBinFile path).toList
  catch e => return .error (troubleOf e)

/-- Writes a text to a file: what went wrong, if anything did. -/
def writeText (path text : String) : IO (Option FileTrouble) := do
  try
    IO.FS.writeFile path text
    return none
  catch e => return some (troubleOf e)

/-- A new identifier: a time in milliseconds and random bits, with the marks of such
identifiers. -/
def newRunId (millis : Nat) : IO RunId := do
  let bytes ← IO.getRandomBytes 10
  let random := bytes.toList.foldl (fun n b => n * 256 + b.toNat) 0
  let value :=
    (millis % twoTo 48) * twoTo 80 + 7 * twoTo 76 + (random / twoTo 62 % twoTo 12) * twoTo 64 +
      twoTo 63 + random % twoTo 62
  return if h : value < twoTo 128 then ⟨value, h⟩ else .nil

def perform : Request → IO Completion
  | .help => return .success [] helpLines
  | .version => return .success [] [versionLine]
  | .submit logLevel request => return submit logLevel request fun _ => .unreachable
  | .run logLevel request => do
    let file ← match request.settingsPath with
      | none => pure (.ok [])
      | some path => readBytes path
    match run logLevel request file fun _ => .unreachable with
    | .error completion => return completion
    | .ok finished =>
      match request.exportPath with
      | none => return finished.complete
      | some path =>
        let nanos := (← Std.Time.Timestamp.now).toNanosecondsSinceUnixEpoch.val
        let time : Timestamp := ⟨nanos / Nanos.perSecond, (nanos % Nanos.perSecond).toNat⟩
        let written := finished.toExport (← newRunId (nanos / Nanos.perMilli).toNat) time
        return finished.completeExport path (← writeText path written.text)

/-- Runs the program on the words of a command line. -/
def runProgram (words : List String) : IO UInt32 := do
  let completion ← match Request.ofWords words with
    | .error e => pure (Completion.misuse e)
    | .ok request => perform request
  for notice in completion.notices do
    IO.println notice.line
  for line in completion.output do
    IO.println line
  if let some complaint := completion.complaint then
    IO.eprintln complaint
  return completion.exitCode.toUInt32

end MarketLoad.CommandLine

def main (words : List String) : IO UInt32 := MarketLoad.CommandLine.runProgram words
