import Mathlib.Algebra.GroupWithZero.Nat
import MarketLoad.Latency

/-!
# Samples of a histogram

A histogram is its buckets and their samples (`Histogram.eq_of_samples`). Merging adds the samples
of each bucket or breaks at one that they do not fit (`Histogram.mergeBuckets_cases`), and one more
round trip is at most one more sample (`Histogram.mass_le_of_record`).
-/

namespace MarketLoad

/-- Two counters add up, or their sum passes the width. -/
theorem addCounters_cases (a b : UInt64) :
    (∃ sum, addCounters a b = .ok sum ∧ sum.toNat = a.toNat + b.toNat) ∨
      (addCounters a b = .error .addOverflow ∧ UInt64.size ≤ a.toNat + b.toNat) := by
  by_cases hfits : a.toNat + b.toNat < UInt64.size
  · have hsum : addCounters a b = .ok (a + b) := if_pos hfits
    exact .inl ⟨a + b, hsum, toNat_of_addCounters hsum⟩
  · exact .inr ⟨if_neg hfits, Nat.le_of_not_lt hfits⟩

/-- Only a full counter cannot count one more. -/
theorem size_le_of_addCounters_one {n : UInt64} {fault : Fault}
    (h : addCounters n 1 = .error fault) : fault = .addOverflow ∧ UInt64.size ≤ n.toNat + 1 := by
  obtain ⟨sum, hsum, -⟩ | ⟨hover, hsize⟩ := addCounters_cases n 1
  · rw [hsum] at h
    cases h
  · rw [hover] at h
    cases h
    exact ⟨rfl, hsize⟩

/-! ### Histograms -/

/-- A bucket apart from its count. -/
def Bucket.range (b : Bucket) : String × UInt64 × UInt64 := (b.label, b.lower, b.upper)

theorem Bucket.eq_of_range {b c : Bucket} (hrange : b.range = c.range)
    (hcount : b.count.toNat = c.count.toNat) : b = c := by
  obtain ⟨label, lower, upper, count⟩ := b
  obtain ⟨label', lower', upper', count'⟩ := c
  obtain rfl : count = count' := UInt64.toNat_inj.1 hcount
  simp only [range, Prod.mk.injEq] at hrange
  obtain ⟨rfl, rfl, rfl⟩ := hrange
  rfl

namespace Histogram

/-- The samples in the bucket at a place, if there is one. -/
def samples : List Bucket → (place : Nat) → Nat
  | [], _ => 0
  | b :: _, 0 => b.count.toNat
  | _ :: bs, place + 1 => samples bs place

theorem samples_lt (bs : List Bucket) (place : Nat) : samples bs place < UInt64.size := by
  induction bs generalizing place with
  | nil => exact Nat.zero_lt_of_lt (UInt64.toNat_lt_size 0)
  | cons b bs ih =>
    cases place with
    | zero => exact b.count.toNat_lt_size
    | succ place => exact ih place

theorem samples_of_getElem? {bs : List Bucket} {place : Nat} {b : Bucket}
    (h : bs[place]? = some b) : samples bs place = b.count.toNat := by
  induction bs generalizing place with
  | nil => cases h
  | cons c bs ih =>
    cases place with
    | zero =>
      cases h
      rfl
    | succ place => exact ih h

/-- Buckets with the same ranges and the same samples are the same. -/
theorem eq_of_samples {bs cs : List Bucket} (hrange : bs.map Bucket.range = cs.map Bucket.range)
    (hsamples : ∀ place < bs.length, samples bs place = samples cs place) : bs = cs := by
  induction bs generalizing cs with
  | nil => exact (List.map_eq_nil_iff.1 hrange.symm).symm
  | cons b bs ih =>
    cases cs with
    | nil => cases hrange
    | cons c cs =>
      obtain ⟨hhead, htail⟩ := List.cons_eq_cons.1 hrange
      obtain rfl : b = c := Bucket.eq_of_range hhead (hsamples 0 (Nat.succ_pos _))
      rw [ih htail fun place hlt => hsamples (place + 1) (Nat.succ_lt_succ hlt)]

/-- Merging keeps the buckets and adds the samples of each, or some sum passes the width. -/
theorem mergeBuckets_cases (bs cs : List Bucket) :
    (∃ merged, mergeBuckets bs cs = .ok merged ∧
      merged.map Bucket.range = bs.map Bucket.range ∧
      ∀ place < bs.length, samples merged place = samples bs place + samples cs place) ∨
    (mergeBuckets bs cs = .error .addOverflow ∧
      ∃ place < bs.length, UInt64.size ≤ samples bs place + samples cs place) := by
  induction bs generalizing cs with
  | nil => exact .inl ⟨[], rfl, rfl, fun _ hlt => absurd hlt (Nat.not_lt_zero _)⟩
  | cons b bs ih =>
    cases cs with
    | nil => exact .inl ⟨b :: bs, rfl, rfl, fun place _ => by cases place <;> rfl⟩
    | cons c cs =>
      obtain ⟨sum, hsum, hnat⟩ | ⟨hover, hsize⟩ := addCounters_cases b.count c.count
      · obtain ⟨merged, hmerged, hrange, hsamples⟩ | ⟨hover, place, hlt, hsize⟩ := ih cs
        · refine .inl ⟨{ b with count := sum } :: merged, ?_, ?_, fun place hlt => ?_⟩
          · rw [mergeBuckets, Bucket.add, hsum, hmerged]
            rfl
          · rw [List.map_cons, List.map_cons, hrange]
            rfl
          · cases place with
            | zero => exact hnat
            | succ place => exact hsamples place (Nat.lt_of_succ_lt_succ hlt)
        · refine .inr ⟨?_, place + 1, Nat.succ_lt_succ hlt, hsize⟩
          rw [mergeBuckets, Bucket.add, hsum, hover]
          rfl
      · refine .inr ⟨?_, 0, Nat.succ_pos _, hsize⟩
        rw [mergeBuckets, Bucket.add, hover]
        rfl

/-! ### All samples -/

/-- The samples of all buckets. -/
def mass (bs : List Bucket) : Nat := (bs.map (·.count.toNat)).sum

theorem mass_cons (b : Bucket) (bs : List Bucket) : mass (b :: bs) = b.count.toNat + mass bs :=
  List.sum_cons

private theorem foldlM_addCounters (bs : List Bucket) (sum : UInt64)
    (hfits : sum.toNat + mass bs < UInt64.size) :
    ∃ total, bs.foldlM (fun sum b => addCounters sum b.count) sum = .ok total ∧
      total.toNat = sum.toNat + mass bs := by
  induction bs generalizing sum with
  | nil => exact ⟨sum, rfl, rfl⟩
  | cons b bs ih =>
    rw [mass_cons] at hfits ⊢
    obtain ⟨sum', hsum, hnat⟩ | ⟨-, hsize⟩ := addCounters_cases sum b.count
    · obtain ⟨total, htotal, hnat'⟩ := ih sum' (by omega)
      refine ⟨total, ?_, by omega⟩
      rw [List.foldlM_cons, hsum]
      exact htotal
    · omega

/-- The total of a histogram is the number of its samples, as long as this fits. -/
theorem total_eq_mass {h : Histogram} (hfits : mass h.buckets < UInt64.size) :
    ∃ total, h.total = .ok total ∧ total.toNat = mass h.buckets := by
  have hzero : (0 : UInt64).toNat = 0 := rfl
  obtain ⟨total, htotal, hnat⟩ := foldlM_addCounters h.buckets 0 (by omega)
  exact ⟨total, htotal, by omega⟩

/-- A total that can be told is the number of samples. -/
theorem toNat_of_total {h : Histogram} {total : UInt64} (htotal : h.total = .ok total) :
    total.toNat = mass h.buckets := by
  have hfold (bs : List Bucket) (sum : UInt64)
      (hsum : bs.foldlM (fun sum b => addCounters sum b.count) sum = .ok total) :
      total.toNat = sum.toNat + mass bs := by
    induction bs generalizing sum with
    | nil =>
      cases hsum
      rfl
    | cons b bs ih =>
      rw [List.foldlM_cons] at hsum
      obtain ⟨sum', hadd, hsum⟩ := bind_eq_ok.1 hsum
      rw [ih sum' hsum, toNat_of_addCounters hadd, mass_cons, Nat.add_assoc]
  exact (hfold h.buckets 0 htotal).trans (Nat.zero_add _)

/-- Merging brings no samples of its own. -/
theorem mass_le_of_mergeBuckets {bs cs merged : List Bucket}
    (h : mergeBuckets bs cs = .ok merged) : mass merged ≤ mass bs + mass cs := by
  fun_induction mergeBuckets bs cs generalizing merged with
  | case1 b bs c cs ih =>
    obtain ⟨b', hb, h⟩ := bind_eq_ok.1 h
    obtain ⟨rest, hrest, h⟩ := bind_eq_ok.1 h
    obtain ⟨count, hcount, hb⟩ := bind_eq_ok.1 hb
    cases hb
    cases h
    have hnat := toNat_of_addCounters hcount
    have hle := ih hrest
    simp only [mass_cons]
    omega
  | case2 bs cs hne =>
    cases h
    exact Nat.le_add_right ..

theorem mass_append (bs cs : List Bucket) : mass (bs ++ cs) = mass bs + mass cs := by
  rw [mass, List.map_append, List.sum_append]
  rfl

/-! ### One more sample -/

/-- A sample is counted in the bucket `b`, between those before and after it: the first that holds
it, or else the last. -/
structure Takes (micros : Nat) (bs before : List Bucket) (b : Bucket) (after : List Bucket) :
    Prop where
  split : bs = before ++ b :: after
  passed : ∀ c ∈ before, c.holds micros = false
  here : b.holds micros = true ∨ after = []

theorem exists_takes (micros : Nat) {bs : List Bucket} (hne : bs ≠ []) :
    ∃ before b after, Takes micros bs before b after ∧
      recordIn micros bs = do return before ++ (← b.add 1) :: after := by
  induction bs with
  | nil => exact absurd rfl hne
  | cons b bs ih =>
    unfold recordIn
    split
    · rename_i hhere
      rw [Bool.or_eq_true, List.isEmpty_iff] at hhere
      exact ⟨[], b, bs, ⟨rfl, nofun, hhere⟩, rfl⟩
    · rename_i hpassed
      rw [Bool.or_eq_true, not_or, Bool.not_eq_true, List.isEmpty_iff] at hpassed
      obtain ⟨before, c, after, htakes, hrecord⟩ := ih hpassed.2
      refine ⟨b :: before, c, after, ⟨?_, ?_, htakes.here⟩, ?_⟩
      · rw [htakes.split]
        rfl
      · exact List.forall_mem_cons.2 ⟨hpassed.1, htakes.passed⟩
      · rw [hrecord]
        cases c.add 1 <;> rfl

/-- No range holds a sample only because 64 bits do not hold its microseconds. -/
theorem holds_sampleMicros (b : Bucket) (latency : Span) :
    b.holds (sampleMicros latency) = b.holds latency.micros := by
  have hlower := b.lower.toNat_lt_size
  have hupper := b.upper.toNat_lt_size
  unfold Bucket.holds sampleMicros
  rw [Bool.eq_iff_iff, Bool.and_eq_true, Bool.and_eq_true]
  simp only [decide_eq_true_eq]
  omega

theorem exists_takes_record {h : Histogram} (latency : Span) (hne : h.buckets ≠ []) :
    ∃ before b after, Takes latency.micros h.buckets before b after ∧
      h.record latency = do return ⟨before ++ (← b.add 1) :: after⟩ := by
  obtain ⟨before, b, after, ⟨hsplit, hpassed, hhere⟩, hrecord⟩ :=
    exists_takes (sampleMicros latency) hne
  simp only [holds_sampleMicros] at hpassed hhere
  refine ⟨before, b, after, ⟨hsplit, hpassed, hhere⟩, ?_⟩
  rw [record, hrecord]
  cases b.add 1 <;> rfl

/-- A round trip cannot be counted only if there are too many samples for one counter. -/
theorem size_le_of_record {h : Histogram} {latency : Span} {fault : Fault}
    (hrecord : h.record latency = .error fault) :
    fault = .addOverflow ∧ UInt64.size ≤ mass h.buckets + 1 := by
  by_cases hne : h.buckets = []
  · rw [record, hne] at hrecord
    cases hrecord
  obtain ⟨before, b, after, htakes, hequation⟩ := exists_takes_record latency hne
  rw [hequation] at hrecord
  obtain hadd | ⟨b', -, hrecord⟩ := bind_eq_error.1 hrecord
  · obtain hcount | ⟨count, -, hadd⟩ := bind_eq_error.1 hadd
    · obtain ⟨hfault, hsize⟩ := size_le_of_addCounters_one hcount
      rw [htakes.split, mass_append, mass_cons]
      exact ⟨hfault, by omega⟩
    · cases hadd
  · cases hrecord

/-- One more round trip is at most one more sample. -/
theorem mass_le_of_record {h h' : Histogram} {latency : Span}
    (hrecord : h.record latency = .ok h') : mass h'.buckets ≤ mass h.buckets + 1 := by
  by_cases hne : h.buckets = []
  · rw [record, hne] at hrecord
    cases hrecord
    exact Nat.zero_le _
  obtain ⟨before, b, after, htakes, hequation⟩ := exists_takes_record latency hne
  rw [hequation] at hrecord
  obtain ⟨b', hadd, hrecord⟩ := bind_eq_ok.1 hrecord
  obtain ⟨count, hcount, hadd⟩ := bind_eq_ok.1 hadd
  cases hadd
  cases hrecord
  have hnat := toNat_of_addCounters hcount
  have hone : (1 : UInt64).toNat = 1 := rfl
  rw [htakes.split]
  simp only [mass_append, mass_cons]
  omega

end Histogram

end MarketLoad
