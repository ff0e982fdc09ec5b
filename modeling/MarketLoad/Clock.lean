import MarketLoad.Fault
import MarketLoad.Span

/-! # The clock

Time is counted in whole milliseconds from the start of the run. A waiting client wakes only at
whole milliseconds, so a deadline between two of them takes effect at the later one. Deadlines
past the end of the clock are faults. A pause, unlike a deadline, is cut to thirty years. -/

namespace MarketLoad.Clock

def nanos (now : Nat) : Nat := Nanos.perMilli * now

/-- No instant lies this many nanoseconds after the start of the run. The last instant lies less than
`2 ^ 63` seconds after the machine was started; here the run and the machine start together, while
really the distance is shorter by the time for which the machine was up before. -/
def horizon : Nat := (twoTo 63 - 1) * Nanos.perSecond

/-- Whether the instant that follows a number of nanoseconds by a span exists. -/
def reaches (start : Nat) (span : Span) : Bool := start + span.nanos < horizon

/-- The reading at which a deadline takes effect that lies a span ahead. -/
def deadline (now : Nat) (span : Span) : Except Fault Nat :=
  if reaches (nanos now) span then .ok (now + span.millisUp) else .error .clockOverflow

/-- No pause takes more nanoseconds: thirty years of 365 days. -/
def longestPause : Nat := 30 * 365 * 86400 * Nanos.perSecond

/-- The nanoseconds that a pause for a span takes. -/
def pause (span : Span) : Nat := min span.nanos longestPause

end MarketLoad.Clock
