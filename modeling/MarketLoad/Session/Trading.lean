import MarketLoad.Clock
import MarketLoad.Command
import MarketLoad.Outcome
import MarketLoad.Session.Settings
import MarketLoad.Venue.Link

/-! # Trading

Orders go out at slots, the multiples of the interval from the start of the trading window; an
interval past the longest pause counts as that. A cycle serves one slot: it draws an order,
writes it and waits for a reply. A slot that is missed by more than the tolerance is not made
up for; the next slot is then the next multiple of the interval after the present. Slots are
counted in nanoseconds from the window's start. -/

namespace MarketLoad

open Venue

structure Cycle where
  /-- The slot it serves, in nanoseconds from the window's start. -/
  slot : Nat
  start : Nat
  finish : Nat
  /-- The order, if there was one to send. -/
  command : Option Command
  /-- Whether the order was written in full. -/
  sent : Bool
  /-- The time from the start of writing to a reply, if one came. -/
  roundTrip : Option Nat
  /-- The fault that broke the worker in this cycle. -/
  fault : Option Fault
deriving DecidableEq, Repr

/-- What trading has come to so far. -/
structure Tally where
  sent : UInt64
  skipped : UInt64
  latency : Histogram
  /-- The cycles, the last one first. -/
  cycles : List Cycle
deriving DecidableEq, Repr

namespace Tally

/-- Nothing traded yet. -/
def empty : Tally := { sent := 0, skipped := 0, latency := .empty, cycles := [] }

/-- Keeps a cycle without counting it. -/
def log (t : Tally) (c : Cycle) : Tally := { t with cycles := c :: t.cycles }

/-- Counts a cycle. -/
def count (t : Tally) (c : Cycle) : Except Fault Tally :=
  if c.sent then do
    let sent ← addCounters t.sent 1
    let latency ← match c.roundTrip with
      | none => .ok t.latency
      | some time => t.latency.record (.ofMillis time)
    return { t with sent, latency }
  else do
    let skipped ← addCounters t.skipped 1
    return { t with skipped }

end Tally

namespace Trading

/-- How an order fared. -/
structure Sending where
  /-- Whether it was written in full. -/
  sent : Bool
  /-- The time from the start of writing to a reply, if one came. -/
  roundTrip : Option Nat
  fault : Option Fault

/-- Waits for a reply to an order that was written from `start` on. One read decides: any
bytes make a round trip, anything else none. -/
def awaitReply (timeouts : Timeouts) (start : Nat) (l : Link) : Sending × Link :=
  match Clock.deadline l.now timeouts.drain with
  | .error fault => (⟨true, none, some fault⟩, l)
  | .ok deadline =>
    match l.read deadline with
    | (.data .., l) => (⟨true, some (l.now - start), none⟩, l)
    | (_, l) => (⟨true, none, none⟩, l)

/-- Writes an order and waits for a reply. -/
def sendOrder (timeouts : Timeouts) (command : Command) (l : Link) : Sending × Link :=
  match Clock.deadline l.now timeouts.send with
  | .error fault => (⟨false, none, some fault⟩, l)
  | .ok deadline =>
    match l.write deadline command.bytes with
    | (.done, l') => awaitReply timeouts l.now l'
    | (_, l') => (⟨false, none, none⟩, l')

/-- One order cycle, and the order flow after it. -/
def cycle (s : SessionSettings) (slot : Nat) (flow : OrderFlow) (l : Link) :
    Cycle × OrderFlow × Link :=
  let idle : Cycle :=
    { slot, start := l.now, finish := l.now, command := none, sent := false, roundTrip := none,
      fault := none }
  match flow.next with
  | .error fault => ({ idle with fault := some fault }, flow, l)
  | .ok (none, flow) => (idle, flow, l)
  | .ok (some order, flow) =>
    let command := Command.order s.trader order
    let (sending, l') := sendOrder s.timeouts command l
    ({ idle with
        finish := l'.now, command := some command, sent := sending.sent,
        roundTrip := sending.roundTrip, fault := sending.fault }, flow, l')

/-- A slot that is served no later than this many nanoseconds after its time is not missed. -/
def tolerance : Nat := 5 * Nanos.perMilli

/-- The slot after one that was served when the window was `time` nanoseconds old. -/
def nextSlot (interval slot time : Nat) : Nat :=
  if time ≤ slot + tolerance then slot + interval
  else time + interval - (time - slot) % interval

theorem slot_lt_nextSlot {interval slot time : Nat} (h : 0 < interval) :
    slot < nextSlot interval slot time := by
  unfold nextSlot
  split
  · omega
  · have := Nat.mod_lt (time - slot) h
    omega

/-- The age of a window in nanoseconds. -/
def age (opened now : Nat) : Nat := Clock.nanos (now - opened)

/-- How serving a slot ended. -/
inductive Served
  /-- The worker broke. -/
  | broken (fault : Fault)
  /-- Trading is over. -/
  | last
  /-- Trading goes on; the window was `time` nanoseconds old when the slot was served. -/
  | more (time : Nat) (flow : OrderFlow)

/-- Serves one slot of the window that opened at `opened`. A slot past the window, or served
after the window, ends trading; so does a window with no room for a further interval. -/
def serve (s : SessionSettings) (opened slot : Nat) (flow : OrderFlow) (tally : Tally) (l : Link) :
    Served × Tally × Link :=
  let l := l.expire (opened + roundUp slot Nanos.perMilli)
  let time := age opened l.now
  if s.duration.nanos < slot ∨ s.duration.nanos < time then (.last, tally, l)
  else
    let (c, flow, l) := cycle s slot flow l
    let tally := tally.log c
    match c.fault with
    | some fault => (.broken fault, tally, l)
    | none =>
      match tally.count c with
      | .error fault => (.broken fault, tally, l)
      | .ok tally =>
        if !Clock.reaches (Clock.nanos opened + slot) s.interval then
          (.broken .clockOverflow, tally, l)
        else if s.duration.nanos < slot + s.interval.nanos then (.last, tally, l)
        else (.more time flow, tally, l)

/-- Serves a slot and those after it, as long as there are slots in the window. Without an
interval there is only one. The result is the fault that broke the worker, if one did, and what
trading came to. -/
def serveFrom (s : SessionSettings) (opened slot : Nat) (flow : OrderFlow) (tally : Tally)
    (l : Link) : Option Fault × Tally × Link :=
  match serve s opened slot flow tally l with
  | (.broken fault, tally, l) => (some fault, tally, l)
  | (.last, tally, l) => (none, tally, l)
  | (.more time flow, tally, l) =>
    if _h : 0 < Clock.pause s.interval ∧ slot ≤ s.duration.nanos then
      serveFrom s opened (nextSlot (Clock.pause s.interval) slot time) flow tally l
    else (none, tally, l)
termination_by s.duration.nanos + 1 - slot
decreasing_by
  have : slot < nextSlot (Clock.pause s.interval) slot time := slot_lt_nextSlot _h.1
  omega

def perform (s : SessionSettings) (l : Link) : Option Fault × Tally × Link :=
  if Clock.reaches (Clock.nanos l.now) s.duration then serveFrom s l.now 0 s.flow .empty l
  else (some .clockOverflow, .empty, l)

end Trading

end MarketLoad
