import MarketLoad.Text.Digits
import MarketLoad.Text.Lines
import MarketLoad.Venue.Peer

/-! # The server's side of a connection

A connection keeps the arrivals that wait for the client in order of their due times, and takes
the client's bytes, cut into lines. Each complete line is logged with its time and answered.
`Connection.stream` is everything the client has got onto the connection. -/

namespace MarketLoad.Venue

/-- An event that the client can see from a time on. -/
structure Arrival where
  due : Nat
  event : Event
deriving DecidableEq, Repr

/-- A line that came in complete, without its newline. -/
structure Receipt where
  time : Nat
  line : Bytes
deriving DecidableEq, Repr

structure Connection where
  peer : Peer
  opened : Nat
  /-- What waits for the client, by due times and then by age. -/
  queue : List Arrival
  /-- Whether the client has seen the stream end. -/
  ended : Bool
  /-- The replies to the lines that come next. -/
  replies : List (List Reaction)
  /-- The complete lines, the last one first. -/
  receipts : List Receipt
  /-- What came after the last newline. -/
  unfinished : Bytes
  /-- The number of bytes taken. -/
  taken : Nat
  /-- How many commands the habit of acknowledging has numbered. -/
  numbered : Nat
  /-- Whether the server has hung up, after which no write succeeds. -/
  hungUp : Bool
  /-- How many times the client has ended its sending in good order. -/
  farewells : Nat
deriving DecidableEq, Repr

/-- Queues an arrival behind all that are due no later. -/
def enqueue (a : Arrival) : List Arrival → List Arrival
  | [] => [a]
  | b :: queue => if b.due ≤ a.due then b :: enqueue a queue else a :: b :: queue

/-- Queues reactions to something that happened at a time, in their order. -/
def enqueueAll (time : Nat) (reactions : List Reaction) (queue : List Arrival) : List Arrival :=
  reactions.foldl (fun queue r => enqueue ⟨time + r.after, r.event⟩ queue) queue

namespace Connection

/-- A connection that has just been taken. -/
def opening (peer : Peer) (now : Nat) : Connection :=
  { peer, opened := now, queue := enqueueAll now peer.greeting [], ended := false,
    replies := peer.replies, receipts := [], unfinished := [], taken := 0, numbered := 0,
    hungUp := false, farewells := 0 }

/-- The start of a registration. -/
def registerStart : Bytes := Utf8.encode "REGISTER:"

def isRegistration (line : Bytes) : Bool := registerStart.isPrefixOf line

/-- A text sent some time after its occasion. -/
def sending (after : Nat) (bytes : Bytes) : Reaction := ⟨after, .data bytes⟩

/-- The acknowledgement of a registration: the identity that followed the colon, again. -/
def registered (line : Bytes) : Bytes :=
  Utf8.encode "REGISTERED:" ++ line.drop registerStart.length ++ [newline]

/-- The acknowledgement of the `n`-th order. -/
def orderAccepted (n : Nat) : Bytes :=
  Utf8.encode "ORDER_ACCEPTED:" ++ Utf8.encodeChars (Text.digits n) ++ [newline]

/-- The reactions of a habit to a line, and whether the line was numbered and hung up on. -/
def habitReactions (habit : Habit) (after number : Nat) (line : Bytes) :
    List Reaction × Bool × Bool :=
  match habit, isRegistration line with
  | .silent, _ => ([], false, false)
  | .reject, true => ([sending after (Utf8.encode "ERROR:Registration disabled\n")], false, false)
  | .reject, false => ([sending after (Utf8.encode "ORDER_REJECTED:0:Invalid order\n")], false, false)
  | .acknowledge, true => ([sending after (registered line)], false, false)
  | .hangup, true => ([sending after (registered line), ⟨after, .ending⟩], false, true)
  | .acknowledge, false | .hangup, false =>
    ([sending after (orderAccepted (number + 1))], true, false)

/-- Takes a complete line: logs it and queues the reactions to it. -/
def receive (now : Nat) (c : Connection) (line : Bytes) : Connection :=
  let c' := { c with receipts := ⟨now, line⟩ :: c.receipts }
  match c.replies with
  | reactions :: replies => { c' with queue := enqueueAll now reactions c.queue, replies }
  | [] =>
    match c.peer.fallback with
    | .fixed reactions => { c' with queue := enqueueAll now reactions c.queue }
    | .habit habit after =>
      let (reactions, numbers, hangsUp) := habitReactions habit after c.numbered line
      { c' with
        queue := enqueueAll now reactions c.queue
        numbered := if numbers then c.numbered + 1 else c.numbered
        hungUp := c.hungUp || hangsUp }

/-- Takes bytes from the client. -/
def take (now : Nat) (c : Connection) (bytes : Bytes) : Connection :=
  let (lines, unfinished) := Lines.cut (c.unfinished ++ bytes)
  { lines.foldl (receive now) c with unfinished, taken := c.taken + bytes.length }

def lines (c : Connection) : List Receipt := c.receipts.reverse

/-- All bytes received, in order. -/
def stream (c : Connection) : Bytes := Lines.join (c.lines.map (·.line)) c.unfinished

/-- How a write fares that is looked at. -/
inductive Readiness
  /-- Bytes are taken. -/
  | ready
  | failing (reason : String)
  /-- Nothing happens before this time; `none` for ever. -/
  | waiting (until? : Option Nat)
deriving DecidableEq, Repr

/-- The bytes for which the server has made room by a time, if they are limited. -/
def granted (c : Connection) (now : Nat) : Option Nat :=
  c.peer.capacity.map fun capacity =>
    (c.peer.refills.filter fun r => c.opened + r.opens ≤ now).foldl (· + ·.bytes) capacity

/-- Whether the server has no room left at a time. -/
def isFull (c : Connection) (now : Nat) : Bool :=
  match c.granted now with
  | none => false
  | some granted => granted ≤ c.taken

/-- The time of the first refill that is still to come. -/
def nextRefill? (c : Connection) (now : Nat) : Option Nat :=
  ((c.peer.refills.map (c.opened + ·.opens)).filter (now < ·)).min?

/-- How a write fares at a time. -/
def readiness (c : Connection) (now : Nat) : Readiness :=
  if c.hungUp then .failing "broken pipe"
  else
    match c.peer.windows.find? (·.contains (now - c.opened)) with
    | some ⟨_, _, .error reason⟩ => .failing reason
    | some ⟨_, _, .zero⟩ => .failing "write zero"
    | some ⟨_, closes, .stall⟩ => .waiting (closes.map (c.opened + ·))
    | none => if c.isFull now then .waiting (c.nextRefill? now) else .ready

/-- How many bytes a single write gets across at a time. -/
def room (c : Connection) (now : Nat) : Option Nat :=
  match c.granted now, c.peer.maxWrite with
  | none, most => most
  | some granted, none => some (granted - c.taken)
  | some granted, some most => some (min (granted - c.taken) most)

end Connection

end MarketLoad.Venue
