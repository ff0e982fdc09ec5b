import MarketLoad.Clock
import MarketLoad.Command
import MarketLoad.Endpoint
import MarketLoad.Text.Blank
import MarketLoad.Text.Lines
import MarketLoad.Venue.Link

/-! # Scripted submission

One trader registers, sends a fixed list of orders with pauses between them, keeps the text
that follows each command, and listens for notifications before it leaves. Only a failed
connection is an error; every other trouble leaves a gap in the transcript. -/

namespace MarketLoad

open Venue

/-- The waits of a script. -/
structure ScriptTiming where
  connect : Span
  /-- For each write, and for the farewell. -/
  send : Span
  /-- For the reply to each command. -/
  responseWait : Span
  /-- Between orders. -/
  pause : Span
  /-- For notifications after the last order. -/
  listen : Span
deriving DecidableEq, Repr

/-- The waits of a script that does not choose any. -/
def ScriptTiming.standard : ScriptTiming :=
  { connect := .ofMillis 5000, send := .ofMillis 1000, responseWait := .ofMillis 500,
    pause := .ofMillis 1000, listen := .ofMillis 3000 }

/-- A command and the text that came after it. -/
structure Exchange where
  command : String
  response : Option String
deriving DecidableEq, Repr

structure Transcript where
  trader : Trader
  registration : Exchange
  orders : List Exchange
  notifications : List String
deriving DecidableEq, Repr

/-- The run of a script. -/
structure ScriptCourse where
  /-- The transcript, or why there is no connection, or the fault that ended the run. -/
  result : Except Fault (Except SessionFailure Transcript)
  finish : Nat
  connection : Option Connection

namespace Script

/-- The script of a trader who brings none: two orders on either side and one elsewhere. -/
def standard : List Order :=
  [("AAPL", Side.buy, "150.50", 10), ("AAPL", .sell, "151", 5), ("GOOGL", .buy, "2800", 2)].filterMap
    fun (ticker, side, price, units) =>
      (Price.ofText? price).bind fun price => Order.limit? ticker side price units

/-- The text of one read that brings any, without its blank end. -/
def readText (deadline : Nat) (l : Link) : Option String × Link :=
  match l.read deadline with
  | (.data first rest, l) => (some (Text.trimEnd (Utf8.lossy (first :: rest))), l)
  | (_, l) => (none, l)

/-- Sends a command and waits for one reply. A command that is not written in full has no
reply. -/
def exchange (timing : ScriptTiming) (command : Command) (l : Link) :
    Except Fault Exchange × Link :=
  let unanswered : Exchange := { command := command.line, response := none }
  match Clock.deadline l.now timing.send with
  | .error fault => (.error fault, l)
  | .ok deadline =>
    match l.write deadline command.bytes with
    | (.done, l) =>
      match Clock.deadline l.now timing.responseWait with
      | .error fault => (.error fault, l)
      | .ok deadline =>
        let (response, l) := readText deadline l
        (.ok { unanswered with response }, l)
    | (_, l) => (.ok unanswered, l)

/-- Sends the orders, pausing before each but the first. -/
def exchanges (timing : ScriptTiming) (trader : Trader) (first : Bool) (l : Link) :
    List Order → Except Fault (List Exchange) × Link
  | [] => (.ok [], l)
  | order :: orders =>
    let l := if first then l else { l with now := l.now + roundUp (Clock.pause timing.pause) Nanos.perMilli }
    match exchange timing (.order trader order) l with
    | (.error fault, l) => (.error fault, l)
    | (.ok done, l) =>
      match exchanges timing trader false l orders with
      | (.error fault, l) => (.error fault, l)
      | (.ok rest, l) => (.ok (done :: rest), l)

/-- Collects the lines that are not empty until nothing comes any more. -/
def listen (deadline : Nat) (l : Link) : List String × Link :=
  match _h : l.read deadline with
  | (.data first rest, l') =>
    let text := Text.trimEnd (Utf8.lossy (first :: rest))
    let (lines, l') := listen deadline l'
    ((Lines.ofText text).filter (!·.isEmpty) ++ lines, l')
  | (_, l') => ([], l')
termination_by l.pending
decreasing_by exact Link.pending_read_lt _h

/-- The script of a connected trader. -/
def connected (timing : ScriptTiming) (trader : Trader) (orders : List Order) (l : Link) :
    Except Fault Transcript × Link :=
  match exchange timing (.register trader) l with
  | (.error fault, l) => (.error fault, l)
  | (.ok registration, l) =>
    match exchanges timing trader true l orders with
    | (.error fault, l) => (.error fault, l)
    | (.ok orders, l) =>
      match Clock.deadline l.now timing.listen with
      | .error fault => (.error fault, l)
      | .ok deadline =>
        let (notifications, l) := listen deadline l
        match Clock.deadline l.now timing.send with
        | .error fault => (.error fault, l)
        | .ok deadline =>
          (.ok { trader, registration, orders, notifications }, l.farewell deadline)

def course (endpoint : Endpoint) (trader : Trader) (orders : List Order) (timing : ScriptTiming)
    (peer : Peer) : ScriptCourse :=
  match Clock.deadline 0 timing.connect with
  | .error fault => { result := .error fault, finish := 0, connection := none }
  | .ok deadline =>
    match connect endpoint.text peer 0 deadline with
    | .failed time failure =>
      { result := .ok (.error failure), finish := time, connection := none }
    | .crashed time text =>
      { result := .error (.crash text), finish := time, connection := none }
    | .connected l =>
      let (result, l) := connected timing trader orders l
      { result := result.map .ok, finish := l.now, connection := l.connection }

end Script

end MarketLoad
