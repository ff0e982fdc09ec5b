import MarketLoad.Fault
import MarketLoad.Span
import MarketLoad.Text.Digits

/-! # Round-trip latency

A histogram counts round trips in buckets of microseconds. A sample goes to the first bucket
that holds it, and to the last one if none does. Merging adds the counts bucket by bucket. -/

namespace MarketLoad

/-- A range of latencies, `lower` included and `upper` not, with its count. -/
structure Bucket where
  label : String
  lower : UInt64
  upper : UInt64
  count : UInt64
deriving DecidableEq, Repr

structure Histogram where
  buckets : List Bucket
deriving DecidableEq, Repr

namespace Bucket

/-- Whether a number of microseconds lies in the bucket. -/
def holds (b : Bucket) (micros : Nat) : Bool := b.lower.toNat ≤ micros && micros < b.upper.toNat

/-- The bucket with more samples. -/
def add (b : Bucket) (samples : UInt64) : Except Fault Bucket := do
  return { b with count := ← addCounters b.count samples }

end Bucket

namespace Histogram

def standardBuckets : List Bucket :=
  [⟨"<1ms", 0, 1000, 0⟩, ⟨"1-5ms", 1000, 5000, 0⟩, ⟨"5-10ms", 5000, 10000, 0⟩,
    ⟨"10-50ms", 10000, 50000, 0⟩, ⟨"50-100ms", 50000, 100000, 0⟩,
    ⟨"100-500ms", 100000, 500000, 0⟩, ⟨">500ms", 500000, 18446744073709551615, 0⟩]

/-- A histogram without samples. -/
def empty : Histogram := ⟨standardBuckets⟩

/-- The microseconds of a sample, at most as many as 64 bits hold. -/
def sampleMicros (latency : Span) : Nat := min latency.micros (UInt64.size - 1)

/-- Counts a sample in the first bucket that holds it, else in the last. -/
def recordIn (micros : Nat) : List Bucket → Except Fault (List Bucket)
  | [] => .ok []
  | b :: bs =>
    if b.holds micros || (bs.isEmpty) then do
      return (← b.add 1) :: bs
    else do
      return b :: (← recordIn micros bs)

/-- Counts one round trip. -/
def record (h : Histogram) (latency : Span) : Except Fault Histogram := do
  return ⟨← recordIn (sampleMicros latency) h.buckets⟩

/-- Counts some round trips. -/
def recordAll (h : Histogram) (latencies : List Span) : Except Fault Histogram :=
  latencies.foldlM record h

/-- Adds the counts of the second list to the buckets of the first. -/
def mergeBuckets : List Bucket → List Bucket → Except Fault (List Bucket)
  | b :: bs, c :: cs => do
    let b ← b.add c.count
    return b :: (← mergeBuckets bs cs)
  | bs, _ => .ok bs

/-- Adds the counts of another histogram. -/
def merge (h other : Histogram) : Except Fault Histogram := do
  return ⟨← mergeBuckets h.buckets other.buckets⟩

def total (h : Histogram) : Except Fault UInt64 :=
  h.buckets.foldlM (fun sum b => addCounters sum b.count) 0

def counts (h : Histogram) : List UInt64 := h.buckets.map (·.count)

/-- A label and a count, the label aligned to the right. -/
def summaryLine (b : Bucket) : String :=
  String.ofList (List.replicate (10 - b.label.length) ' ' ++ b.label.toList ++ ':' :: ' ' ::
    Text.digits b.count.toNat)

/-- One line for each bucket with samples. -/
def summary (h : Histogram) : String :=
  "\n".intercalate ((h.buckets.filter fun b => 0 < b.count).map summaryLine)

end Histogram

end MarketLoad
