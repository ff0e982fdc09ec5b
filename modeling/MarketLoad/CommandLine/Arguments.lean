import MarketLoad.Binary64.Text

/-! # Arguments

The words of a command line as a request. Options are spelled `--name value`, `--name=value`, and
where they have a letter also `-n value`, `-nvalue` or `-n=value`. A word that starts with `-` is
never taken for the value of the option before it, and no option may be given twice. -/

namespace MarketLoad.CommandLine

/-- Why words are no request. -/
inductive UsageError
  | missingCommand
  | unknownCommand (word : String)
  | unexpected (word : String)
  | missingValue (option : String)
  | invalidValue (option value : String)
  | repeated (option : String)
deriving DecidableEq, Repr

namespace UsageError

def message : UsageError → String
  | missingCommand => "a command is missing: run or submit"
  | unknownCommand word => "unknown command " ++ word
  | unexpected word => "unexpected argument " ++ word
  | missingValue option => "option --" ++ option ++ " needs a value"
  | invalidValue option value => "option --" ++ option ++ " cannot be " ++ value
  | repeated option => "option --" ++ option ++ " was given twice"

end UsageError

/-- A request to run many traders. -/
structure RunRequest where
  settingsPath : Option String
  host : Option String
  port : Option UInt16
  traders : Option UInt64
  duration : Option Binary64
  interval : Option Binary64
  limit : Option UInt64
  seed : Option UInt64
  exportPath : Option String
deriving DecidableEq, Repr

/-- A request to submit a script for one trader. -/
structure SubmitRequest where
  host : String
  port : UInt16
  trader : String
deriving DecidableEq, Repr

/-- What the program is asked to do. -/
inductive Request
  | run (logLevel : Option String) (request : RunRequest)
  | submit (logLevel : Option String) (request : SubmitRequest)
  | help
  | version
deriving DecidableEq, Repr

/-! ## Values -/

/-- A natural number below `2 ^ 64`, perhaps with a plus sign. -/
def count? (value : String) : Option UInt64 :=
  let ds := match value.toList with
    | '+' :: ds => ds
    | ds => ds
  (Text.readNat? ds).bind fun n => if n < UInt64.size then some (UInt64.ofNat n) else none

/-- A port number. Zero may carry a minus sign. -/
def port? (value : String) : Option UInt16 :=
  let (negative, ds) := match value.toList with
    | '+' :: ds => (false, ds)
    | '-' :: ds => (true, ds)
    | ds => (false, ds)
  (Text.readNat? ds).bind fun n =>
    if n < UInt16.size ∧ (!negative ∨ n = 0) then some (UInt16.ofNat n) else none

/-- A path, which is not empty. -/
def path? (value : String) : Option String := if value.isEmpty then none else some value

/-! ## Options -/

/-- An option of a command. -/
structure Choice where
  name : String
  letter : Option Char
  /-- Whether a value can be given. -/
  accepts : String → Bool

/-- The option of the log level, which every command has. -/
def logChoice : Choice := ⟨"log-level", none, fun _ => true⟩

def runChoices : List Choice :=
  [logChoice, ⟨"config", some 'c', fun v => (path? v).isSome⟩, ⟨"host", none, fun _ => true⟩,
    ⟨"port", none, fun v => (port? v).isSome⟩, ⟨"traders", none, fun v => (count? v).isSome⟩,
    ⟨"duration", none, fun v => (Binary64.ofText? v).isSome⟩,
    ⟨"interval", none, fun v => (Binary64.ofText? v).isSome⟩,
    ⟨"workers", none, fun v => (count? v).isSome⟩, ⟨"seed", none, fun v => (count? v).isSome⟩,
    ⟨"json", none, fun v => (path? v).isSome⟩]

def submitChoices : List Choice :=
  [logChoice, ⟨"host", none, fun _ => true⟩, ⟨"port", none, fun v => (port? v).isSome⟩,
    ⟨"trader", none, fun _ => true⟩]

/-- A word of a command line. -/
inductive Token
  /-- An option by its name, perhaps with a value. -/
  | long (name : String) (value : Option String)
  /-- An option by its letter, perhaps with a value. -/
  | short (letter : Char) (value : Option String)
  /-- The end of options. -/
  | separator
  | word
deriving DecidableEq

/-- The value after an equals sign, or all that follows a letter. -/
def attached? : List Char → Option String
  | [] => none
  | '=' :: value => some (String.ofList value)
  | value => some (String.ofList value)

/-- Which kind of word it is. -/
def Token.ofWord (word : String) : Token :=
  match word.toList with
  | ['-', '-'] => .separator
  | '-' :: '-' :: rest =>
    .long (String.ofList (rest.takeWhile (· != '='))) (attached? (rest.dropWhile (· != '=')))
  | '-' :: c :: rest => .short c (attached? rest)
  | _ => .word

/-- Why the reading of options stops early. -/
inductive Stop
  | error (e : UsageError)
  | help
  | version
deriving DecidableEq

/-- The option that a token names; `none` if it is no option of the command. -/
def Token.choice? (choices : List Choice) : Token → Option (Choice × Option String)
  | .long name value => (choices.find? (·.name == name)).map (·, value)
  | .short letter value => (choices.find? (·.letter == some letter)).map (·, value)
  | .separator | .word => none

def Token.isHelp : Token → Bool
  | .long name value => name == "help" && value.isNone
  | .short letter _ => letter == 'h'
  | .separator | .word => false

def Token.isVersion : Token → Bool
  | .long name value => name == "version" && value.isNone
  | .short letter _ => letter == 'V'
  | .separator | .word => false

/-- Adds an option to those that were given before. -/
def give (choice : Choice) (value : String) (given : List (String × String)) :
    Except Stop (List (String × String)) :=
  if !choice.accepts value then .error (.error (.invalidValue choice.name value))
  else if given.any (·.1 == choice.name) then .error (.error (.repeated choice.name))
  else .ok (given ++ [(choice.name, value)])

/-- Reads options up to the first word that is none, which the result keeps. No word may follow
the end of options. -/
def readOptions (choices : List Choice) (hasVersion : Bool) (given : List (String × String)) :
    List String → Except Stop (List (String × String) × List String)
  | [] => .ok (given, [])
  | word :: rest =>
    let token := Token.ofWord word
    if token = .word then .ok (given, word :: rest)
    else if token = .separator then
      match rest with
      | [] => .ok (given, [])
      | word :: _ => .error (.error (.unexpected word))
    else if token.isHelp then .error .help
    else if hasVersion && token.isVersion then .error .version
    else
      match token.choice? choices with
      | none => .error (.error (.unexpected word))
      | some (choice, some value) => do
        readOptions choices hasVersion (← give choice value given) rest
      | some (choice, none) =>
        match rest with
        | [] => .error (.error (.missingValue choice.name))
        | value :: rest =>
          if Token.ofWord value = .word then do
            readOptions choices hasVersion (← give choice value given) rest
          else .error (.error (.missingValue choice.name))

/-- Reads the options of a command, after which no word is left. -/
def readAll (choices : List Choice) (words : List String) :
    Except Stop (List (String × String)) := do
  match ← readOptions choices false [] words with
  | (given, []) => return given
  | (_, word :: _) => throw (.error (.unexpected word))

/-! ## Requests -/

def RunRequest.ofOptions (given : List (String × String)) : RunRequest :=
  { settingsPath := given.lookup "config"
    host := given.lookup "host"
    port := (given.lookup "port").bind port?
    traders := (given.lookup "traders").bind count?
    duration := (given.lookup "duration").bind Binary64.ofText?
    interval := (given.lookup "interval").bind Binary64.ofText?
    limit := (given.lookup "workers").bind count?
    seed := (given.lookup "seed").bind count?
    exportPath := given.lookup "json" }

def SubmitRequest.ofOptions (given : List (String × String)) : SubmitRequest :=
  { host := (given.lookup "host").getD "localhost"
    port := ((given.lookup "port").bind port?).getD 8888
    trader := (given.lookup "trader").getD "trader1" }

/-- Checks the words after `help`: nothing, or one command. -/
def checkHelp : List String → Except Stop Unit
  | [] | ["run"] | ["submit"] | ["help"] => .ok ()
  | "run" :: word :: _ | "submit" :: word :: _ | word :: _ => .error (.error (.unknownCommand word))

/-- The request of some words, unless they stop early. -/
def readRequest (words : List String) : Except Stop Request := do
  let (common, words) ← readOptions [logChoice] true [] words
  match words with
  | [] => throw (.error .missingCommand)
  | "run" :: words =>
    let given ← readAll runChoices words
    return .run ((given.lookup "log-level").or (common.lookup "log-level")) (.ofOptions given)
  | "submit" :: words =>
    let given ← readAll submitChoices words
    return .submit ((given.lookup "log-level").or (common.lookup "log-level")) (.ofOptions given)
  | "help" :: words =>
    checkHelp words
    return .help
  | word :: _ => throw (.error (.unknownCommand word))

/-- The request of a command line. -/
def Request.ofWords (words : List String) : Except UsageError Request :=
  match readRequest words with
  | .ok request => .ok request
  | .error .help => .ok .help
  | .error .version => .ok .version
  | .error (.error e) => .error e

end MarketLoad.CommandLine
