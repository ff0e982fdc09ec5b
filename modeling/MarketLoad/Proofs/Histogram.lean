import Mathlib.Data.List.Chain
import MarketLoad.Proofs.Latency

/-!
# What the counts of a histogram are

One more round trip adds one to the count of one bucket (`Histogram.exists_takes_record`). Where the
ranges of the buckets follow one another from zero on, the counts are those of the round trips that
lie in the ranges, and the last bucket has all that lie past it (`Histogram.Counts`). Counts know no
order, so merging two histograms is counting all their round trips in one (`Histogram.counts_exact`).
-/

namespace MarketLoad

/-- Whether a number of microseconds lies in the range of a bucket, to which all that lies past it is
added if the bucket is the last one. -/
def Bucket.admits (b : Bucket) (last : Bool) (micros : Nat) : Bool :=
  b.lower.toNat ≤ micros && (micros < b.upper.toNat || last)

theorem Bucket.admits_iff {b : Bucket} {last : Bool} {micros : Nat} :
    b.admits last micros = true ↔
      b.lower.toNat ≤ micros ∧ (micros < b.upper.toNat ∨ last = true) := by
  unfold admits
  rw [Bool.and_eq_true, Bool.or_eq_true, decide_eq_true_eq, decide_eq_true_eq]

theorem Bucket.admits_of_range {b c : Bucket} (h : b.range = c.range) : b.admits = c.admits := by
  have hlower : b.lower = c.lower := congrArg (·.2.1) h
  have hupper : b.upper = c.upper := congrArg (·.2.2) h
  funext last micros
  rw [admits, admits, hlower, hupper]

namespace Histogram

/-! ### Ranges without gaps -/

/-- The ranges of the buckets follow one another from zero on. -/
structure Tiles (bs : List Bucket) : Prop where
  start : ∀ b ∈ bs.head?, b.lower = 0
  adjoin : bs.IsChain fun b c => b.upper = c.lower
  apart : bs.Pairwise fun b c => b.upper ≤ c.lower

theorem tiles_standardBuckets : Tiles standardBuckets := by
  constructor
  all_goals decide

theorem Tiles.of_range {bs cs : List Bucket} (h : Tiles cs)
    (hrange : bs.map Bucket.range = cs.map Bucket.range) : Tiles bs where
  start b hb := by
    have hhead : (bs.map Bucket.range).head? = some b.range := by
      rw [List.head?_map, hb]
      rfl
    rw [hrange, List.head?_map, Option.map_eq_some_iff] at hhead
    obtain ⟨c, hc, hrange⟩ := hhead
    rw [← h.start c hc]
    exact (congrArg (·.2.1) hrange).symm
  adjoin := by
    have hchain : (cs.map Bucket.range).IsChain fun r r' => r.2.2 = r'.2.1 :=
      (List.isChain_map _).2 h.adjoin
    rw [← hrange] at hchain
    exact (List.isChain_map _).1 hchain
  apart := by
    have hpairwise : (cs.map Bucket.range).Pairwise fun r r' => r.2.2 ≤ r'.2.1 :=
      List.pairwise_map.2 h.apart
    rw [← hrange] at hpairwise
    exact List.pairwise_map.1 hpairwise

section Takes

variable {micros : Nat} {bs before after : List Bucket} {b : Bucket}

/-- A sample lies past all buckets before the one in which it is counted, and not before that one. -/
theorem Takes.past (h : Takes micros bs before b after)
    (hadjoin : bs.IsChain fun b c => b.upper = c.lower)
    (hstart : ∀ c ∈ bs.head?, c.lower.toNat ≤ micros) :
    (∀ c ∈ before, c.upper.toNat ≤ micros) ∧ b.lower.toNat ≤ micros := by
  obtain ⟨rfl, hpassed, hhere⟩ := h
  induction before with
  | nil => exact ⟨nofun, hstart b rfl⟩
  | cons c before ih =>
    have hlower := hstart c rfl
    have hupper : c.upper.toNat ≤ micros := by
      have hc := hpassed c List.mem_cons_self
      unfold Bucket.holds at hc
      rw [decide_eq_true hlower, Bool.true_and, decide_eq_false_iff_not] at hc
      exact Nat.le_of_not_lt hc
    obtain ⟨hfirst, hchain⟩ := List.isChain_cons.1 hadjoin
    obtain ⟨hrest, hb⟩ := ih (fun d hd => hpassed d (List.mem_cons_of_mem c hd)) hchain
      fun d hd => hfirst d hd ▸ hupper
    exact ⟨List.forall_mem_cons.2 ⟨hupper, hrest⟩, hb⟩

/-- Without gaps, a sample is counted in the one bucket that admits it. -/
theorem Takes.admits_iff (h : Takes micros bs before b after) (htiles : Tiles bs) {place : Nat}
    {c : Bucket} (hc : bs[place]? = some c) :
    c.admits (place + 1 == bs.length) micros = true ↔ place = before.length := by
  have hstart : ∀ c ∈ bs.head?, c.lower.toNat ≤ micros := by
    intro c hc
    rw [htiles.start c hc]
    exact Nat.zero_le _
  obtain ⟨hbefore, hlower⟩ := h.past htiles.adjoin hstart
  obtain ⟨rfl, -, hhere⟩ := h
  have hlength : (before ++ b :: after).length = before.length + (after.length + 1) := by
    rw [List.length_append, List.length_cons]
  rw [Bucket.admits_iff, beq_iff_eq, hlength]
  rcases Nat.lt_trichotomy place before.length with hlt | rfl | hgt
  · rw [List.getElem?_append_left hlt] at hc
    have hupper := hbefore c (List.mem_of_getElem? hc)
    exact iff_of_false (by omega) (by omega)
  · rw [List.getElem?_append_right (Nat.le_refl _), Nat.sub_self] at hc
    cases hc
    refine iff_of_true ⟨hlower, hhere.imp (fun hholds => ?_) fun hlast => ?_⟩ rfl
    · exact of_decide_eq_true (Bool.and_eq_true_iff.1 hholds).2
    · rw [hlast, List.length_nil]
  · -- A later bucket begins where the range of `b` ends, or after that.
    rw [List.getElem?_append_right (Nat.le_of_lt hgt), List.getElem?_cons,
      if_neg (by omega)] at hc
    have hafter := List.mem_of_getElem? hc
    have hmicros : micros < b.upper.toNat := by
      rcases hhere with hholds | hlast
      · exact of_decide_eq_true (Bool.and_eq_true_iff.1 hholds).2
      · rw [hlast] at hafter
        cases hafter
    have hpairwise := (List.pairwise_append.1 htiles.apart).2.1
    have hle : b.upper.toNat ≤ c.lower.toNat :=
      UInt64.le_iff_toNat_le.1 ((List.pairwise_cons.1 hpairwise).1 c hafter)
    exact iff_of_false (by omega) (by omega)

end Takes

/-! ### Counting -/

theorem getElem?_append_cons_of_ne {α : Type} {before after : List α} {place : Nat}
    (h : place ≠ before.length) (a a' : α) :
    (before ++ a :: after)[place]? = (before ++ a' :: after)[place]? := by
  rw [List.getElem?_append, List.getElem?_append]
  split
  · rfl
  · rw [List.getElem?_cons, List.getElem?_cons, if_neg (by omega), if_neg (by omega)]

/-- A histogram with the buckets of a new one that has counted these round trips. -/
structure Counts (h : Histogram) (latencies : List Span) : Prop where
  ranges : h.buckets.map Bucket.range = standardBuckets.map Bucket.range
  count (place : Nat) (b : Bucket) : h.buckets[place]? = some b → b.count.toNat =
    latencies.countP fun latency => b.admits (place + 1 == h.buckets.length) latency.micros
  mass : mass h.buckets = latencies.length

namespace Counts

variable {h h' : Histogram} {latencies latencies' : List Span}

theorem tiles (hcounts : Counts h latencies) : Tiles h.buckets :=
  tiles_standardBuckets.of_range hcounts.ranges

theorem length (hcounts : Counts h latencies) : h.buckets.length = standardBuckets.length := by
  have hlength := congrArg List.length hcounts.ranges
  rwa [List.length_map, List.length_map] at hlength

protected theorem empty : Counts empty [] where
  ranges := rfl
  count place b hb := by
    have hzero : ∀ b ∈ standardBuckets, b.count.toNat = 0 := by decide
    exact hzero b (List.mem_of_getElem? hb)
  mass := rfl

/-- One more round trip is one more in the bucket that admits it. -/
theorem record (hcounts : Counts h latencies) (latency : Span)
    (hfits : latencies.length + 1 < UInt64.size) :
    ∃ h', h.record latency = .ok h' ∧ Counts h' (latencies ++ [latency]) := by
  have hne : h.buckets ≠ [] := by
    intro hnil
    have hlength := hcounts.length
    rw [hnil] at hlength
    cases hlength
  obtain ⟨before, b, after, htakes, hrecord⟩ := exists_takes_record latency hne
  have hmass := hcounts.mass
  rw [htakes.split, mass_append, mass_cons] at hmass
  obtain ⟨count, hcount, hnat⟩ | ⟨-, hsize⟩ := addCounters_cases b.count 1
  case inr =>
    have hone : (1 : UInt64).toNat = 1 := rfl
    omega
  have hone : (1 : UInt64).toNat = 1 := rfl
  rw [Bucket.add, hcount] at hrecord
  refine ⟨_, hrecord, ⟨?_, fun place c hc => ?_, ?_⟩⟩
  · rw [← hcounts.ranges, htakes.split, List.map_append, List.map_append]
    rfl
  · have hlength : (before ++ { b with count } :: after).length = h.buckets.length := by
      rw [htakes.split, List.length_append, List.length_append]
      rfl
    rw [List.countP_append, List.countP_singleton, hlength]
    by_cases hplace : place = before.length
    · subst hplace
      have hb : h.buckets[before.length]? = some b := by
        rw [htakes.split, List.getElem?_append_right (Nat.le_refl _), Nat.sub_self]
        rfl
      rw [List.getElem?_append_right (Nat.le_refl _), Nat.sub_self] at hc
      cases hc
      have hadmits : Bucket.admits { b with count } (before.length + 1 == h.buckets.length)
          latency.micros = true := (htakes.admits_iff hcounts.tiles hb).2 rfl
      rw [if_pos hadmits]
      exact hnat.trans (congrArg (· + 1) (hcounts.count _ b hb))
    · have hc' : h.buckets[place]? = some c := by
        rw [htakes.split, getElem?_append_cons_of_ne hplace b { b with count }]
        exact hc
      have hadmits := (htakes.admits_iff hcounts.tiles hc').not.2 hplace
      rw [if_neg hadmits]
      exact hcounts.count place c hc'
  · rw [mass_append, mass_cons, List.length_append, List.length_singleton]
    dsimp only
    omega

theorem recordAll (hcounts : Counts h latencies) (latencies' : List Span)
    (hfits : latencies.length + latencies'.length < UInt64.size) :
    ∃ h', h.recordAll latencies' = .ok h' ∧ Counts h' (latencies ++ latencies') := by
  induction latencies' generalizing h latencies with
  | nil =>
    rw [List.append_nil]
    exact ⟨h, rfl, hcounts⟩
  | cons latency latencies' ih =>
    rw [List.length_cons] at hfits
    obtain ⟨h₁, hrecord, hcounts₁⟩ := hcounts.record latency (by omega)
    have hlength : (latencies ++ [latency]).length = latencies.length + 1 := List.length_append
    obtain ⟨h₂, hrecordAll, hcounts₂⟩ := ih hcounts₁ (by omega)
    refine ⟨h₂, ?_, ?_⟩
    · rw [Histogram.recordAll, List.foldlM_cons, hrecord]
      exact hrecordAll
    · rwa [List.append_assoc] at hcounts₂

/-- The samples at a place are those that the bucket of a new histogram at this place admits. -/
theorem samples_eq (hcounts : Counts h latencies) {place : Nat} {b : Bucket}
    (hb : standardBuckets[place]? = some b) :
    samples h.buckets place = latencies.countP fun latency =>
      b.admits (place + 1 == standardBuckets.length) latency.micros := by
  have hrange : (h.buckets.map Bucket.range)[place]? = some b.range := by
    rw [hcounts.ranges, List.getElem?_map, hb]
    rfl
  rw [List.getElem?_map, Option.map_eq_some_iff] at hrange
  obtain ⟨c, hc, hrange⟩ := hrange
  rw [samples_of_getElem? hc, hcounts.count place c hc, Bucket.admits_of_range hrange,
    hcounts.length]

theorem samples_append {h₀ : Histogram} (hcounts : Counts h latencies)
    (hcounts' : Counts h' latencies') (hcounts₀ : Counts h₀ (latencies ++ latencies'))
    {place : Nat} (hlt : place < h.buckets.length) :
    samples h₀.buckets place = samples h.buckets place + samples h'.buckets place := by
  rw [hcounts.length] at hlt
  have hb := List.getElem?_eq_getElem hlt
  rw [hcounts.samples_eq hb, hcounts'.samples_eq hb, hcounts₀.samples_eq hb, List.countP_append]

/-- Merging counts the round trips of both histograms. -/
theorem merge {h₀ : Histogram} (hcounts : Counts h latencies) (hcounts' : Counts h' latencies')
    (hcounts₀ : Counts h₀ (latencies ++ latencies')) : h.merge h' = .ok h₀ := by
  rw [Histogram.merge]
  obtain ⟨merged, hmerged, hrange, hsamples⟩ | ⟨-, place, hlt, hsize⟩ :=
    mergeBuckets_cases h.buckets h'.buckets
  · have hlength : merged.length = h.buckets.length := by
      have hlength := congrArg List.length hrange
      rwa [List.length_map, List.length_map] at hlength
    have hsame : merged = h₀.buckets := by
      apply eq_of_samples ((hrange.trans hcounts.ranges).trans hcounts₀.ranges.symm)
      intro place hlt
      rw [hlength] at hlt
      rw [hsamples place hlt, hcounts.samples_append hcounts' hcounts₀ hlt]
    rw [hmerged, hsame]
    rfl
  · rw [← hcounts.samples_append hcounts' hcounts₀ hlt] at hsize
    exact absurd (samples_lt h₀.buckets place) (Nat.not_lt.2 hsize)

end Counts

/-- Fewer round trips than a counter can count are all counted. -/
theorem exists_counts (latencies : List Span) (hfits : latencies.length < UInt64.size) :
    ∃ h, empty.recordAll latencies = .ok h ∧ Counts h latencies :=
  Counts.empty.recordAll latencies (by rwa [List.length_nil, Nat.zero_add])

/-- Recording a round trip adds one to the count of one bucket, whatever the ranges are, and changes
nothing else. From a new histogram on, the count of each bucket is the number of round trips whose
whole microseconds lie in its range, the last bucket has all past its start, and the total is the
number of round trips. Merging histograms comes to the same as counting their round trips in one. -/
theorem counts_exact :
    (∀ (h : Histogram) (latency : Span), h.buckets ≠ [] →
      (∀ b ∈ h.buckets, b.count.toNat < UInt64.size - 1) →
      ∃ before b after, Takes latency.micros h.buckets before b after ∧
        (b.count + 1).toNat = b.count.toNat + 1 ∧
        h.record latency = .ok ⟨before ++ { b with count := b.count + 1 } :: after⟩) ∧
    (∀ latencies : List Span, latencies.length < UInt64.size →
      ∃ h total, empty.recordAll latencies = .ok h ∧
        h.buckets.map Bucket.range = standardBuckets.map Bucket.range ∧
        (∀ place b, h.buckets[place]? = some b → b.count.toNat = latencies.countP fun latency =>
          b.lower.toNat ≤ latency.micros &&
            (latency.micros < b.upper.toNat || place + 1 == h.buckets.length)) ∧
        h.total = .ok total ∧ total.toNat = latencies.length) ∧
    ∀ latencies latencies' : List Span, latencies.length + latencies'.length < UInt64.size →
      ∃ h h' merged, empty.recordAll latencies = .ok h ∧ empty.recordAll latencies' = .ok h' ∧
        h.merge h' = .ok merged ∧ empty.recordAll (latencies ++ latencies') = .ok merged := by
  refine ⟨fun h latency hne hfits => ?_, fun latencies hfits => ?_,
    fun latencies latencies' hfits => ?_⟩
  · obtain ⟨before, b, after, htakes, hrecord⟩ := exists_takes_record latency hne
    have hb : b.count.toNat < UInt64.size - 1 := by
      apply hfits
      rw [htakes.split]
      exact List.mem_append_right before List.mem_cons_self
    have hsum : b.count.toNat + (1 : UInt64).toNat < UInt64.size := Nat.add_lt_of_lt_sub hb
    have hadd : addCounters b.count 1 = .ok (b.count + 1) := if_pos hsum
    rw [Bucket.add, hadd] at hrecord
    exact ⟨before, b, after, htakes, toNat_of_addCounters hadd, hrecord⟩
  · obtain ⟨h, hrecordAll, hcounts⟩ := exists_counts latencies hfits
    obtain ⟨total, htotal, hnat⟩ := total_eq_mass (hcounts.mass ▸ hfits)
    exact ⟨h, total, hrecordAll, hcounts.ranges, hcounts.count, htotal, hnat.trans hcounts.mass⟩
  · obtain ⟨h, hrecordAll, hcounts⟩ := exists_counts latencies (by omega)
    obtain ⟨h', hrecordAll', hcounts'⟩ := exists_counts latencies' (by omega)
    obtain ⟨merged, hmerged, hcounts₀⟩ := exists_counts (latencies ++ latencies')
      (by rwa [List.length_append])
    exact ⟨h, h', merged, hrecordAll, hrecordAll', hcounts.merge hcounts' hcounts₀, hmerged⟩

/-- A sample in the gap between two ranges is counted in the last bucket, and so is one whose
microseconds pass 64 bits. -/
theorem counts_exact_past :
    let odd : Histogram := ⟨[⟨"a", 0, 10, 4⟩, ⟨"b", 5, 20, 0⟩, ⟨"c", 30, 40, 7⟩]⟩
    let gap : Span := ⟨25 * Nanos.perMicro, by decide⟩
    let longest : Span := ⟨UInt64.size * Nanos.perSecond - 1, by decide⟩
    let short : Span := ⟨Nanos.perMilli - 1, by decide⟩
    (∀ b ∈ odd.buckets, b.count.toNat < UInt64.size - 1) ∧
      (∃ before b after, Takes gap.micros odd.buckets before b after ∧
        odd.record gap = .ok ⟨before ++ { b with count := b.count + 1 } :: after⟩) ∧
      odd.record gap = .ok ⟨[⟨"a", 0, 10, 4⟩, ⟨"b", 5, 20, 0⟩, ⟨"c", 30, 40, 8⟩]⟩ ∧
      UInt64.size ≤ longest.micros ∧
      (∃ h total, empty.recordAll [longest, .ofMillis 500] = .ok h ∧
        h.counts = [0, 0, 0, 0, 0, 0, 2] ∧ h.total = .ok total ∧ total.toNat = 2) ∧
      ∃ h h' merged, empty.recordAll [longest, .ofMillis 500] = .ok h ∧
        empty.recordAll [short] = .ok h' ∧ h.merge h' = .ok merged ∧
        merged.counts = [1, 0, 0, 0, 0, 0, 2] := by
  intro odd gap longest short
  have hcounts : ∀ b ∈ odd.buckets, b.count.toNat < UInt64.size - 1 := by decide
  obtain ⟨hone, hall, hmerge⟩ := counts_exact
  obtain ⟨before, b, after, htakes, -, hrecord⟩ := hone odd gap (List.cons_ne_nil _ _) hcounts
  obtain ⟨h, total, hrecordAll, -, -, htotal, hnat⟩ :=
    hall [longest, .ofMillis 500] (by decide)
  obtain ⟨h₁, h₂, merged, h₁all, h₂all, hmerged, hboth⟩ :=
    hmerge [longest, .ofMillis 500] [short] (by decide)
  have hlong : (empty.recordAll [longest, .ofMillis 500]).map counts =
      .ok [0, 0, 0, 0, 0, 0, 2] := by
    decide +kernel
  have hthree : (empty.recordAll [longest, .ofMillis 500, short]).map counts =
      .ok [1, 0, 0, 0, 0, 0, 2] := by
    decide +kernel
  rw [hrecordAll] at hlong
  rw [show [longest, .ofMillis 500, short] = [longest, .ofMillis 500] ++ [short] from rfl,
    hboth] at hthree
  exact ⟨hcounts, ⟨before, b, after, htakes, hrecord⟩, by decide +kernel, by decide,
    ⟨h, total, hrecordAll, Except.ok.inj hlong, htotal, hnat⟩,
    h₁, h₂, merged, h₁all, h₂all, hmerged, Except.ok.inj hthree⟩

end Histogram

end MarketLoad
