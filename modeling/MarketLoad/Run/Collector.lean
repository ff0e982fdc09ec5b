import MarketLoad.Outcome
import MarketLoad.Run.Debts

/-! # Collecting outcomes

A run owes one outcome for each of its sessions. Outcomes are taken in as they are delivered,
and shown to an observer; for the traders that are still owed one when all sessions have ended
a failed outcome is made up. -/

namespace MarketLoad

/-- The outcomes of a run that have come in, and what is still owed. -/
structure Collector (σ : Type) where
  /-- The outcomes that are missing. -/
  owed : Debts
  /-- The outcomes, the last one first. -/
  received : List Outcome
  /-- What the observer has made of them. -/
  observed : σ

namespace Collector

variable {σ : Type}

/-- Nothing has come in. -/
def start (requested : List Trader) (state : σ) : Collector σ :=
  { owed := .ofTraders requested, received := [], observed := state }

/-- Keeps an outcome and shows it to the observer. -/
def keep (observe : σ → Outcome → σ) (c : Collector σ) (o : Outcome) : Collector σ :=
  { c with received := o :: c.received, observed := observe c.observed o }

/-- Takes in a delivered outcome, which settles one that its trader is owed. -/
def receive (observe : σ → Outcome → σ) (c : Collector σ) (o : Outcome) : Collector σ :=
  { c.keep observe o with owed := c.owed.settle o.trader }

/-- The outcome of a session that ended without one. -/
def lostOutcome (elapsed : Span) (trader : Trader) : Outcome :=
  .untraded trader elapsed (.worker "session task ended without an outcome")

/-- Makes up the outcomes that are still owed. -/
def settle (observe : σ → Outcome → σ) (elapsed : Span) (c : Collector σ) : Collector σ :=
  { (c.owed.traders.map (lostOutcome elapsed)).foldl (keep observe) c with owed := .empty }

/-- Collects the outcomes of a run that asked for these traders, had these outcomes delivered in
this order, and took this time. -/
def collect (observe : σ → Outcome → σ) (state : σ) (requested : List Trader)
    (delivered : List Outcome) (elapsed : Span) : Collector σ :=
  (delivered.foldl (receive observe) (start requested state)).settle observe elapsed

/-- The outcomes in the order in which they came in. -/
def outcomes (c : Collector σ) : List Outcome := c.received.reverse

end Collector

end MarketLoad
