import MarketLoad.Session.Registration
import MarketLoad.Session.Trading

/-! # The course of a session

A session connects, registers, trades and says farewell. Only a failed connection ends it
early; a registration that is not acknowledged is noted, and the trader trades anyway. -/

namespace MarketLoad

open Venue

/-- What a session did, and when. -/
structure Course where
  /-- When the session took its slot. -/
  start : Nat
  /-- The outcome, or the fault that broke the worker. -/
  result : Except Fault Outcome
  finish : Nat
  /-- The server's side of the connection, if there was one. -/
  connection : Option Connection
  /-- The order cycles in order. A fault may have broken the last one. -/
  cycles : List Cycle

/-- The time that a session took. -/
def Course.elapsed (c : Course) : Span := .ofMillis (c.finish - c.start)

namespace Session

/-- The course of a session that ends before it is connected. -/
def unconnected (start : Nat) (s : SessionSettings) (finish : Nat) (failure : SessionFailure) :
    Course :=
  { start, result := Outcome.failed s.trader (.ofMillis (finish - start)) failure, finish,
    connection := none, cycles := [] }

/-- The course of a session that a fault ends. -/
def broken (start : Nat) (fault : Fault) (finish : Nat) (connection : Option Connection)
    (cycles : List Cycle) : Course :=
  { start, result := .error fault, finish, connection, cycles }

/-- The outcome of a session that has traded. -/
def traded (s : SessionSettings) (registration : Except RegistrationFailure Unit) (tally : Tally)
    (elapsed : Span) : Outcome :=
  let failure := match registration with
    | .ok () => none
    | .error cause => some (.registration cause)
  { trader := s.trader, sent := tally.sent, skipped := tally.skipped, elapsed, success := true,
    registered := failure.isNone, latency := tally.latency, failure }

def connected (start : Nat) (s : SessionSettings) (l : Link) : Course :=
  match Clock.deadline l.now s.timeouts.registerAck with
  | .error fault => broken start fault l.now l.connection []
  | .ok deadline =>
    let (registration, l) := Registration.perform s.trader deadline l
    match Trading.perform s l with
    | (some fault, tally, l) => broken start fault l.now l.connection tally.cycles.reverse
    | (none, tally, l) =>
      match Clock.deadline l.now s.timeouts.send with
      | .error fault => broken start fault l.now l.connection tally.cycles.reverse
      | .ok deadline =>
        let l := l.farewell deadline
        { start, result := .ok (traded s registration tally (.ofMillis (l.now - start))),
          finish := l.now, connection := l.connection, cycles := tally.cycles.reverse }

/-- The course of a session that takes its slot at a time, against a peer. -/
def course (start : Nat) (s : SessionSettings) (peer : Peer) : Course :=
  match Clock.deadline start s.timeouts.connect with
  | .error fault => broken start fault start none []
  | .ok deadline =>
    match connect s.endpoint.text peer start deadline with
    | .failed time failure => unconnected start s time failure
    | .crashed time text => broken start (.crash text) time none []
    | .connected l => connected start s l

end Session

end MarketLoad
