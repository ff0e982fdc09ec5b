import MarketLoad.Run.Collector
import MarketLoad.Run.Slots

/-! # Interleavings of a run

The tasks of a run wait for slots, hold them and end in an order that nothing but the slots
restrains. A task ends by sending an outcome of its trader, or it is lost; either way it gives back
the slot it holds. Between any two moves of the tasks the collector may take in the oldest outcome
that was sent. -/

namespace MarketLoad

inductive Ending
  | sends (outcome : Outcome)
  | lost
deriving DecidableEq, Repr

/-- One move of an interleaving. Tasks are named by their places among those that wait or among
those that hold a slot. -/
inductive Move
  /-- The task that waits first takes a slot. -/
  | seat
  /-- A task that holds a slot ends. -/
  | finish (place : Nat) (ending : Ending)
  /-- A task that waits ends without a slot. -/
  | leave (place : Nat) (ending : Ending)
  /-- The collector takes in an outcome. -/
  | receive
deriving DecidableEq, Repr

/-- The outcome that a move sends. -/
def Move.outcome? : Move → Option Outcome
  | finish _ (.sends outcome) | leave _ (.sends outcome) => some outcome
  | _ => none

/-- A run between two moves. -/
structure Dispatch (σ : Type) where
  slots : Slots
  /-- The traders of the tasks that wait, in order. -/
  queued : List Trader
  /-- The traders of the tasks that hold a slot. -/
  active : List Trader
  /-- The traders of the tasks that were lost. -/
  lost : List Trader
  /-- The outcomes that were sent and not yet taken in, the oldest first. -/
  channel : List Outcome
  collector : Collector σ

namespace Dispatch

variable {σ : Type}

/-- Every task waits. -/
def start (requested : Nat) (traders : List Trader) (state : σ) : Dispatch σ :=
  { slots := .idle (Slots.effectiveLimit requested), queued := traders, active := [], lost := [],
    channel := [], collector := .start traders state }

/-- The task of a trader ends. It can only send an outcome of its own trader. -/
def close? (trader : Trader) (d : Dispatch σ) : Ending → Option (Dispatch σ)
  | .sends outcome =>
    if outcome.trader = trader then some { d with channel := d.channel ++ [outcome] } else none
  | .lost => some { d with lost := trader :: d.lost }

/-- A run after a move, if the move is possible. -/
def step? (observe : σ → Outcome → σ) (d : Dispatch σ) : Move → Option (Dispatch σ)
  | .seat =>
    match d.queued with
    | [] => none
    | trader :: queued =>
      d.slots.acquire?.map fun slots =>
        { d with slots := slots.enter, queued, active := d.active ++ [trader] }
  | .finish place ending =>
    d.active[place]?.bind fun trader =>
      { d with slots := d.slots.leave.release, active := d.active.eraseIdx place }.close? trader
        ending
  | .leave place ending =>
    d.queued[place]?.bind fun trader =>
      { d with queued := d.queued.eraseIdx place }.close? trader ending
  | .receive =>
    match d.channel with
    | [] => none
    | outcome :: channel =>
      some { d with channel, collector := d.collector.receive observe outcome }

/-- A run after some moves, if they are possible. -/
def run? (observe : σ → Outcome → σ) (d : Dispatch σ) : List Move → Option (Dispatch σ)
  | [] => some d
  | move :: moves => (d.step? observe move).bind fun d => d.run? observe moves

/-- Whether all tasks have ended and all outcomes are taken in. -/
def isDone (d : Dispatch σ) : Bool := d.queued.isEmpty && d.active.isEmpty && d.channel.isEmpty

/-- What the run came to: the outcomes still owed are made up. -/
def finish (observe : σ → Outcome → σ) (elapsed : Span) (d : Dispatch σ) : Collector σ :=
  d.collector.settle observe elapsed

end Dispatch

end MarketLoad
