import MarketLoad.Failure
import MarketLoad.Text.Utf8

/-! # A scripted market server

The behaviour of the far end of one connection, fixed in advance: how it takes the connection,
what it sends and when, which writes it refuses or delays, how fast it takes bytes. All times are
milliseconds; those of write windows and refills count from the connection. -/

namespace MarketLoad.Venue

/-- Something that arrives at the client. -/
inductive Event
  /-- Bytes to read. -/
  | data (bytes : Bytes)
  /-- The stream ends; nothing follows. -/
  | ending
  /-- One read fails. -/
  | breaking (reason : String)
deriving DecidableEq, Repr

def Event.size : Event → Nat
  | .data bytes => bytes.length
  | .ending | .breaking _ => 0

/-- An event that follows its occasion after some time. -/
structure Reaction where
  after : Nat
  event : Event
deriving DecidableEq, Repr

/-- How a connection attempt ends once its delay is over. -/
inductive Reception
  | accept
  | refuse (reason : String)
  | fail (failure : SessionFailure)
  /-- The server breaks down, with a text or without. -/
  | crash (text : Option String)
deriving DecidableEq, Repr

/-- A habit of answering commands. -/
inductive Habit
  /-- Acknowledges registrations and orders. -/
  | acknowledge
  /-- Says nothing. -/
  | silent
  /-- Rejects registrations and orders. -/
  | reject
  /-- Acknowledges a registration and hangs up. -/
  | hangup
deriving DecidableEq, Repr

/-- How commands are answered that have no reply of their own. -/
inductive Fallback
  /-- Always the same reactions. -/
  | fixed (reactions : List Reaction)
  /-- By habit, some time after the command. -/
  | habit (habit : Habit) (after : Nat)
deriving DecidableEq, Repr

/-- What happens to a write that falls into a window. -/
inductive WriteTrouble
  /-- It fails. -/
  | error (reason : String)
  /-- Nothing is taken, which the client counts as a failure. -/
  | zero
  /-- It has to wait for the window's end. -/
  | stall
deriving DecidableEq, Repr

/-- A window of time with trouble for writes. A window without an end stays open. -/
structure WriteWindow where
  opens : Nat
  closes : Option Nat
  trouble : WriteTrouble
deriving DecidableEq, Repr

/-- Room for further bytes, made at a time by a server that reads slowly. -/
structure Refill where
  opens : Nat
  bytes : Nat
deriving DecidableEq, Repr

/-- How the client's end of sending is received. -/
inductive Farewell
  | accept
  | fail
  | stall
deriving DecidableEq, Repr

/-- The behaviour of the server on one connection. -/
structure Peer where
  /-- The time until the attempt is answered; `none` if it never is. -/
  delay : Option Nat
  reception : Reception
  /-- What follows the connection itself. -/
  greeting : List Reaction
  /-- What follows the first, second, … line. -/
  replies : List (List Reaction)
  fallback : Fallback
  windows : List WriteWindow
  /-- The bytes for which there is room at first, if they are limited. -/
  capacity : Option Nat
  /-- The room that a limited server makes later. -/
  refills : List Refill := []
  /-- The bytes taken by one write, if they are limited. -/
  maxWrite : Option Nat
  farewell : Farewell
deriving DecidableEq, Repr

/-- A server that takes everything at once and answers nothing. -/
def Peer.quiet : Peer :=
  { delay := some 0, reception := .accept, greeting := [], replies := [], fallback := .fixed [],
    windows := [], capacity := none, maxWrite := none, farewell := .accept }

/-- A server that no route leads to. -/
def Peer.unreachable : Peer :=
  { Peer.quiet with reception := .refuse "Network is unreachable (os error 101)" }

def WriteWindow.contains (w : WriteWindow) (time : Nat) : Bool :=
  w.opens ≤ time && match w.closes with
    | none => true
    | some closes => time < closes

end MarketLoad.Venue
