import MarketLoad.Binary64.Text
import MarketLoad.Nanos

/-! # Spans of time

A span is a number of nanoseconds whose whole seconds fit 64 bits. -/

namespace MarketLoad

structure Span where
  nanos : Nat
  nanos_lt : nanos < UInt64.size * Nanos.perSecond
deriving DecidableEq, Repr

namespace Span

def zero : Span := ⟨0, by decide⟩

instance : Inhabited Span := ⟨zero⟩

/-- The span of this many nanoseconds, if there is one. -/
def ofNanos? (nanos : Nat) : Option Span :=
  if h : nanos < UInt64.size * Nanos.perSecond then some ⟨nanos, h⟩ else none

/-- Seconds and nanoseconds, which may amount to further seconds. -/
def ofParts? (seconds nanos : Nat) : Option Span := ofNanos? (Nanos.perSecond * seconds + nanos)

/-- Milliseconds, at most as many as a span holds. -/
def ofMillis (millis : Nat) : Span :=
  ⟨min (Nanos.perMilli * millis) (UInt64.size * Nanos.perSecond - 1),
    Nat.lt_of_le_of_lt (Nat.min_le_right ..) (by decide)⟩

def seconds (s : Span) : Nat := s.nanos / Nanos.perSecond

/-- The nanoseconds past the whole seconds. -/
def subNanos (s : Span) : Nat := s.nanos % Nanos.perSecond

def millis (s : Span) : Nat := s.nanos / Nanos.perMilli

/-- The least number of milliseconds that covers the span. -/
def millisUp (s : Span) : Nat := roundUp s.nanos Nanos.perMilli

def micros (s : Span) : Nat := s.nanos / Nanos.perMicro

/-- The span in seconds as a double-precision number: the nanoseconds past the seconds are
divided and added on in double precision. -/
def toSeconds (s : Span) : Binary64 :=
  (Binary64.ofNat s.seconds).add ((Binary64.ofNat s.subNanos).div (.ofNat Nanos.perSecond))

/-- The span nearest to a number of seconds, halves of a nanosecond to the even neighbour;
only for numbers that are not negative and below `2 ^ 64`. -/
def ofSeconds? : Binary64 → Option Span
  | .nan | .infinite _ => none
  | .finite negative m e =>
    if negative && m != 0 then none
    else
      let (n, d) := Binary64.ratio m e
      if n < UInt64.size * d then ofNanos? (roundHalfEven (n * Nanos.perSecond) d) else none

end Span

end MarketLoad
