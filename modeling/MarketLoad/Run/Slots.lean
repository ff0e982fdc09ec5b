import MarketLoad.Powers

/-! # Slots

A run has a number of slots, and a session runs only while it holds one. Beside the slots runs a
gauge of active sessions with its greatest reading. A session takes a slot and then enters the
gauge; it leaves the gauge and then gives its slot back. -/

namespace MarketLoad

/-- The slots of a run and its gauge. -/
structure Slots where
  /-- The number of slots. -/
  limit : Nat
  /-- How many are held. -/
  held : Nat
  /-- How many sessions are active. -/
  active : Nat
  /-- The most sessions that were active at once. -/
  peak : Nat
deriving DecidableEq, Repr

namespace Slots

def maxLimit : Nat := twoTo 61 - 1

/-- The number of slots of a run that asks for some: at least one. -/
def effectiveLimit (requested : Nat) : Nat := max 1 (min requested maxLimit)

theorem effectiveLimit_pos (requested : Nat) : 0 < effectiveLimit requested :=
  Nat.lt_of_lt_of_le Nat.one_pos (Nat.le_max_left ..)

/-- Slots nobody holds. -/
def idle (limit : Nat) : Slots := { limit, held := 0, active := 0, peak := 0 }

/-- Takes a slot if one is free. -/
def acquire? (s : Slots) : Option Slots :=
  if s.held < s.limit then some { s with held := s.held + 1 } else none

/-- Counts a session as active. -/
def enter (s : Slots) : Slots :=
  { s with active := s.active + 1, peak := max s.peak (s.active + 1) }

/-- Counts a session as active no longer. -/
def leave (s : Slots) : Slots := { s with active := s.active - 1 }

def release (s : Slots) : Slots := { s with held := s.held - 1 }

end Slots

end MarketLoad
