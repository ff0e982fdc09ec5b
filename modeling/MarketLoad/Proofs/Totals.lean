import MarketLoad.Proofs.Latency
import MarketLoad.Report

/-!
# Totals are sums

Every counter of some totals (`Counter`) is a sum over outcomes: an outcome counts like the totals
of it alone (`Totals.record_eq_merge`), and merging adds up, counter by counter, unless one of the
sums passes its width (`Totals.IsStandard.sums_merge`). What a computation of totals comes to is
therefore told by its sums alone (`Sums.unique`). A sum knows no order and no grouping, so neither
do totals.
-/

namespace MarketLoad

/-! ### Counters -/

/-- What totals count. -/
inductive Counter
  | sessions
  | successful
  | registered
  | orders
  | skipped
  | bucket (place : Fin Histogram.standardBuckets.length)
deriving DecidableEq, Repr

namespace Totals

/-- What a counter of some totals shows. -/
def amount (t : Totals) : Counter → Nat
  | .sessions => t.sessions.toNat
  | .successful => t.successful.toNat
  | .registered => t.registered.toNat
  | .orders => t.orders.toNat
  | .skipped => t.skipped.toNat
  | .bucket place => Histogram.samples t.latency.buckets place

/-- The totals of one outcome. -/
def ofOutcome (o : Outcome) : Totals :=
  { sessions := 1, successful := if o.success then 1 else 0,
    registered := if o.registered then 1 else 0, orders := o.sent, skipped := o.skipped,
    latency := o.latency }

theorem record_eq_merge (t : Totals) (o : Outcome) : t.record o = t.merge (ofOutcome o) := rfl

/-- The latencies are counted in the buckets of a new histogram. -/
def IsStandard (t : Totals) : Prop :=
  t.latency.buckets.map Bucket.range = Histogram.standardBuckets.map Bucket.range

theorem IsStandard.length {t : Totals} (h : t.IsStandard) :
    t.latency.buckets.length = Histogram.standardBuckets.length := by
  have hlength := congrArg List.length h
  rwa [List.length_map, List.length_map] at hlength

theorem amount_lt (t : Totals) (c : Counter) : t.amount c < UInt64.size := by
  cases c with
  | sessions => exact t.sessions.toNat_lt_size
  | successful => exact t.successful.toNat_lt_size
  | registered => exact t.registered.toNat_lt_size
  | orders => exact t.orders.toNat_lt_size
  | skipped => exact t.skipped.toNat_lt_size
  | bucket place => exact Histogram.samples_lt _ place

theorem IsStandard.eq_of_amount {t u : Totals} (ht : t.IsStandard) (hu : u.IsStandard)
    (h : t.amount = u.amount) : t = u := by
  have hcounter (c : Counter) : t.amount c = u.amount c := congrFun h c
  have hlatency : t.latency.buckets = u.latency.buckets := by
    apply Histogram.eq_of_samples (ht.trans hu.symm)
    intro place hlt
    exact hcounter (.bucket ⟨place, ht.length ▸ hlt⟩)
  obtain ⟨sessions, successful, registered, orders, skipped, ⟨buckets⟩⟩ := t
  obtain ⟨sessions', successful', registered', orders', skipped', ⟨buckets'⟩⟩ := u
  obtain rfl : sessions = sessions' := UInt64.toNat_inj.1 (hcounter .sessions)
  obtain rfl : successful = successful' := UInt64.toNat_inj.1 (hcounter .successful)
  obtain rfl : registered = registered' := UInt64.toNat_inj.1 (hcounter .registered)
  obtain rfl : orders = orders' := UInt64.toNat_inj.1 (hcounter .orders)
  obtain rfl : skipped = skipped' := UInt64.toNat_inj.1 (hcounter .skipped)
  obtain rfl : buckets = buckets' := hlatency
  rfl

end Totals

/-! ### Sums -/

/-- A computation comes to totals that show these amounts, or breaks because one of them passes the
width of its counter. -/
def Sums (amounts : Counter → Nat) : Except Fault Totals → Prop
  | .ok t => t.IsStandard ∧ t.amount = amounts
  | .error fault => fault = .addOverflow ∧ ∃ c, UInt64.size ≤ amounts c

theorem Sums.congr {f g : Counter → Nat} {x : Except Fault Totals} (h : Sums f x)
    (hamounts : ∀ c, f c = g c) : Sums g x := by
  rwa [← funext hamounts]

theorem Sums.unique {amounts : Counter → Nat} {x y : Except Fault Totals} (hx : Sums amounts x)
    (hy : Sums amounts y) : x = y := by
  have hfits (t : Totals) (hamount : t.amount = amounts) : ¬ ∃ c, UInt64.size ≤ amounts c := by
    rintro ⟨c, hc⟩
    rw [← hamount] at hc
    exact Nat.not_le.2 (t.amount_lt c) hc
  cases x with
  | ok t =>
    cases y with
    | ok u => rw [hx.1.eq_of_amount hy.1 (hx.2.trans hy.2.symm)]
    | error fault => exact absurd hy.2 (hfits t hx.2)
  | error fault =>
    cases y with
    | ok u => exact absurd hx.2 (hfits u hy.2)
    | error fault' => rw [hx.1, hy.1]

theorem Sums.eq_error_iff {amounts : Counter → Nat} {x : Except Fault Totals} (h : Sums amounts x) :
    x = .error .addOverflow ↔ ∃ c, UInt64.size ≤ amounts c := by
  constructor
  · rintro rfl
    exact h.2
  · intro hover
    exact h.unique ⟨rfl, hover⟩

/-- Merging adds up, counter by counter. -/
theorem Totals.IsStandard.sums_merge {t : Totals} (ht : t.IsStandard) (u : Totals) :
    Sums (fun c => t.amount c + u.amount c) (t.merge u) := by
  unfold merge
  obtain ⟨sessions, h, hsessions⟩ | ⟨h, hsize⟩ := addCounters_cases t.sessions u.sessions
  case inr => rw [h]; exact ⟨rfl, .sessions, hsize⟩
  rw [h]
  obtain ⟨successful, h, hsuccessful⟩ | ⟨h, hsize⟩ := addCounters_cases t.successful u.successful
  case inr => rw [h]; exact ⟨rfl, .successful, hsize⟩
  rw [h]
  obtain ⟨registered, h, hregistered⟩ | ⟨h, hsize⟩ := addCounters_cases t.registered u.registered
  case inr => rw [h]; exact ⟨rfl, .registered, hsize⟩
  rw [h]
  obtain ⟨orders, h, horders⟩ | ⟨h, hsize⟩ := addCounters_cases t.orders u.orders
  case inr => rw [h]; exact ⟨rfl, .orders, hsize⟩
  rw [h]
  obtain ⟨skipped, h, hskipped⟩ | ⟨h, hsize⟩ := addCounters_cases t.skipped u.skipped
  case inr => rw [h]; exact ⟨rfl, .skipped, hsize⟩
  rw [h, Histogram.merge]
  obtain ⟨merged, h, hrange, hsamples⟩ | ⟨h, place, hlt, hsize⟩ :=
    Histogram.mergeBuckets_cases t.latency.buckets u.latency.buckets
  case inr => rw [h]; exact ⟨rfl, .bucket ⟨place, ht.length ▸ hlt⟩, hsize⟩
  rw [h]
  refine ⟨hrange.trans ht, funext ?_⟩
  intro c
  cases c with
  | sessions => exact hsessions
  | successful => exact hsuccessful
  | registered => exact hregistered
  | orders => exact horders
  | skipped => exact hskipped
  | bucket place => exact hsamples place (Nat.lt_of_lt_of_eq place.isLt ht.length.symm)

theorem Sums.merge {f g : Counter → Nat} {x y : Except Fault Totals} (hx : Sums f x)
    (hy : Sums g y) : Sums (fun c => f c + g c) (x >>= fun t => y >>= t.merge) := by
  cases x with
  | error fault =>
    obtain ⟨hfault, c, hc⟩ := hx
    exact ⟨hfault, c, Nat.le_add_right_of_le hc⟩
  | ok t =>
    cases y with
    | error fault =>
      obtain ⟨hfault, c, hc⟩ := hy
      exact ⟨hfault, c, Nat.le_add_left_of_le hc⟩
    | ok u =>
      obtain ⟨ht, rfl⟩ := hx
      obtain ⟨-, rfl⟩ := hy
      exact ht.sums_merge u

/-- What a counter should show after some outcomes: the sum over them, however large. -/
def Counter.total (c : Counter) (outcomes : List Outcome) : Nat :=
  (outcomes.map fun o => (Totals.ofOutcome o).amount c).sum

theorem Counter.total_cons (c : Counter) (o : Outcome) (outcomes : List Outcome) :
    c.total (o :: outcomes) = (Totals.ofOutcome o).amount c + c.total outcomes :=
  List.sum_cons

theorem Counter.total_append (c : Counter) (outcomes outcomes' : List Outcome) :
    c.total (outcomes ++ outcomes') = c.total outcomes + c.total outcomes' := by
  rw [total, List.map_append, List.sum_append]
  rfl

theorem Counter.total_perm (c : Counter) {outcomes outcomes' : List Outcome}
    (h : outcomes.Perm outcomes') : c.total outcomes = c.total outcomes' :=
  (h.map _).sum_nat

theorem Sums.record {f : Counter → Nat} {x : Except Fault Totals} (h : Sums f x) (o : Outcome) :
    Sums (fun c => f c + (Totals.ofOutcome o).amount c) (x >>= (·.record o)) := by
  cases x with
  | error fault =>
    obtain ⟨hfault, c, hc⟩ := h
    exact ⟨hfault, c, Nat.le_add_right_of_le hc⟩
  | ok t =>
    obtain ⟨ht, rfl⟩ := h
    exact ht.sums_merge (.ofOutcome o)

theorem Sums.recordAll {f : Counter → Nat} {x : Except Fault Totals} (h : Sums f x)
    (outcomes : List Outcome) :
    Sums (fun c => f c + c.total outcomes) (x >>= (·.recordAll outcomes)) := by
  induction outcomes generalizing f x with
  | nil => cases x <;> exact h
  | cons o outcomes ih =>
    have hrest := ih (h.record o)
    have hsame : (x >>= (·.record o)) >>= (·.recordAll outcomes) =
        x >>= (·.recordAll (o :: outcomes)) := by
      cases x <;> rfl
    rw [hsame] at hrest
    refine hrest.congr fun c => ?_
    rw [Counter.total_cons, Nat.add_assoc]

theorem sums_recordAll (outcomes : List Outcome) :
    Sums (·.total outcomes) (Totals.empty.recordAll outcomes) := by
  have hempty : Sums (fun _ => 0) (.ok .empty) := by
    refine ⟨rfl, funext ?_⟩
    intro c
    cases c with
    | bucket place => revert place; decide
    | _ => rfl
  exact (hempty.recordAll outcomes).congr fun c => Nat.zero_add _

/-! ### Groupings -/

/-- A way to add up outcomes: some are added one by one to totals of their own, and totals are
merged two by two. -/
inductive Grouping
  | group (outcomes : List Outcome)
  | merged (left right : Grouping)

namespace Grouping

/-- The outcomes of all groups. -/
def outcomes : Grouping → List Outcome
  | group outcomes => outcomes
  | merged left right => left.outcomes ++ right.outcomes

/-- What the outcomes add up to in this way. -/
def totals : Grouping → Except Fault Totals
  | group outcomes => Totals.empty.recordAll outcomes
  | merged left right => do (← left.totals).merge (← right.totals)

theorem sums_totals (g : Grouping) : Sums (·.total g.outcomes) g.totals := by
  induction g with
  | group outcomes => exact sums_recordAll outcomes
  | merged left right ihl ihr =>
    exact (ihl.merge ihr).congr fun c => (c.total_append ..).symm

end Grouping

/-- However outcomes are ordered and grouped, they add up to the same totals as one by one, and the
counters show the sums over the outcomes. The computation breaks in one way exactly if it breaks in
every other, namely if one of the sums passes the width of its counter. -/
theorem totals_of_grouping {outcomes : List Outcome} {g : Grouping} (h : g.outcomes.Perm outcomes) :
    g.totals = Totals.empty.recordAll outcomes ∧
    (∀ t, g.totals = .ok t → ∀ c, t.amount c = c.total outcomes) ∧
    (g.totals = .error .addOverflow ↔ ∃ c : Counter, UInt64.size ≤ c.total outcomes) ∧
    ((∃ t, g.totals = .ok t) ↔ ∀ c : Counter, c.total outcomes < UInt64.size) := by
  have hsums := g.sums_totals.congr fun c => c.total_perm h
  have herror := hsums.eq_error_iff
  have hamount (t : Totals) (ht : g.totals = .ok t) (c : Counter) :
      t.amount c = c.total outcomes := by
    rw [ht] at hsums
    exact congrFun hsums.2 c
  refine ⟨hsums.unique (sums_recordAll outcomes), hamount, herror, ?_⟩
  constructor
  · rintro ⟨t, ht⟩ c
    rw [← hamount t ht]
    exact t.amount_lt c
  · intro hfits
    cases hx : g.totals with
    | ok t => exact ⟨t, rfl⟩
    | error fault =>
      rw [hx] at hsums
      obtain ⟨c, hc⟩ := hsums.2
      exact absurd (hfits c) (Nat.not_lt.2 hc)

/-- Three outcomes in three groups. The orders of two of them pass the width together; the third
counts latencies in fewer buckets than totals have, the last one filled to its width. -/
theorem totals_of_grouping_overflow :
    let failed : Outcome := .untraded ⟨"a"⟩ .zero (.worker "boom")
    let full : Outcome := { failed with sent := 18446744073709551615 }
    let one : Outcome := { failed with sent := 1 }
    let odd : Outcome := { failed with latency := ⟨[⟨"", 0, 0, 18446744073709551615⟩]⟩ }
    let fits : Grouping := .merged (.group [odd]) (.merged (.group []) (.group [full]))
    let late : Grouping := .merged (.group [one]) fits
    late.outcomes.Perm [full, odd, one] ∧ late.totals = .error .addOverflow ∧
      Totals.empty.recordAll [full, odd, one] = .error .addOverflow ∧
      fits.outcomes.Perm [full, odd] ∧ fits.totals = Totals.empty.recordAll [full, odd] ∧
      ∃ t, fits.totals = .ok t ∧ t.amount .orders = 18446744073709551615 := by
  intro failed full one odd fits late
  have hover : late.outcomes.Perm [full, odd, one] := by decide
  have hfits : fits.outcomes.Perm [full, odd] := by decide
  obtain ⟨hsame, -, herror, -⟩ := totals_of_grouping hover
  obtain ⟨hsame', hamount, -, hok⟩ := totals_of_grouping hfits
  have horders : late.totals = .error .addOverflow := herror.2 ⟨.orders, by decide⟩
  have hbucket : ∀ place, (Counter.bucket place).total [full, odd] < UInt64.size := by decide
  obtain ⟨t, ht⟩ := hok.2 fun c => by
    cases c with
    | bucket place => exact hbucket place
    | _ => decide
  exact ⟨hover, horders, hsame.symm.trans horders, hfits, hsame', t, ht, hamount t ht .orders⟩

end MarketLoad
