import MarketLoad.Clock

/-!
# Deadlines

A deadline that is computed later lies as much later (`Clock.deadline_later`), unless it lies past
the end of the clock, which is then near (`Clock.horizon_le_of_deadline`). Whoever waits for a
deadline is done by it, and nobody waits past the latest reading of the clock (`Clock.Waits`).
-/

namespace MarketLoad

/-! ### Rounding up -/

section roundUp

variable {n d : Nat}

theorem le_mul_roundUp (n : Nat) (hd : 0 < d) : n ≤ d * roundUp n d := by
  have hdiv := Nat.div_add_mod (n + (d - 1)) d
  have hmod := Nat.mod_lt (n + (d - 1)) hd
  unfold roundUp
  omega

theorem mul_roundUp_lt (n : Nat) (hd : 0 < d) : d * roundUp n d < n + d := by
  have hle := Nat.mul_div_le (n + (d - 1)) d
  unfold roundUp
  omega

theorem roundUp_le_roundUp {m : Nat} (d : Nat) (h : n ≤ m) : roundUp n d ≤ roundUp m d :=
  Nat.div_le_div_right (Nat.add_le_add_right h _)

theorem mul_roundUp_of_dvd (hd : 0 < d) (h : d ∣ n) : d * roundUp n d = n := by
  obtain ⟨k, rfl⟩ := h
  have hlt : roundUp (d * k) d < k + 1 := by
    apply Nat.lt_of_mul_lt_mul_left (a := d)
    rw [Nat.mul_add_one]
    exact mul_roundUp_lt (d * k) hd
  have hle : k ≤ roundUp (d * k) d :=
    Nat.le_of_mul_le_mul_left (le_mul_roundUp (d * k) hd) hd
  rw [Nat.le_antisymm (Nat.le_of_lt_succ hlt) hle]

end roundUp

theorem Span.nanos_millisUp {span : Span} (h : Nanos.perMilli ∣ span.nanos) :
    Clock.nanos span.millisUp = span.nanos :=
  mul_roundUp_of_dvd (by decide) h

namespace Clock

variable {t : Nat}

theorem reaches_iff {start : Nat} {span : Span} :
    reaches start span = true ↔ start + span.nanos < horizon := decide_eq_true_iff

theorem nanos_le_nanos_add (now t : Nat) : nanos now ≤ nanos (now + t) :=
  Nat.mul_le_mul_left _ (Nat.le_add_right ..)

theorem reaches_of_le {start start' : Nat} {span : Span} (hle : start ≤ start')
    (h : reaches start' span = true) : reaches start span = true :=
  reaches_iff.2 (Nat.lt_of_le_of_lt (Nat.add_le_add_right hle _) (reaches_iff.1 h))

/-- A deadline computed later lies as much later, or past the end of the clock. -/
theorem deadline_later (t now : Nat) (span : Span) :
    (∃ time, deadline now span = .ok time ∧ deadline (now + t) span = .ok (time + t)) ∨
    deadline (now + t) span = .error .clockOverflow := by
  unfold deadline
  by_cases hlate : reaches (nanos (now + t)) span
  · have hearly : reaches (nanos now) span = true :=
      reaches_of_le (nanos_le_nanos_add now t) hlate
    refine .inl ⟨_, if_pos hearly, ?_⟩
    rw [if_pos hlate, Nat.add_right_comm]
  · exact .inr (if_neg hlate)

theorem fault_of_deadline {now : Nat} {span : Span} {fault : Fault}
    (h : deadline now span = .error fault) : fault = .clockOverflow := by
  unfold deadline at h
  split at h
  · cases h
  · cases h
    rfl

theorem horizon_le_of_deadline {now : Nat} {span : Span} {fault : Fault}
    (h : deadline now span = .error fault) : horizon ≤ nanos now + span.nanos := by
  unfold deadline at h
  by_cases hreach : reaches (nanos now) span = true
  · rw [if_pos hreach] at h
    cases h
  · exact Nat.le_of_not_lt fun hlt => hreach (decide_eq_true hlt)

/-! ### Waiting -/

section Waits

variable {now now' now'' time time' : Nat} {span : Span}

theorem of_deadline_eq_ok (h : deadline now span = .ok time) :
    nanos now + span.nanos < horizon ∧ time = now + span.millisUp := by
  unfold deadline at h
  split at h
  · rename_i hreach
    cases h
    exact ⟨reaches_iff.1 hreach, rfl⟩
  · cases h

/-- Nobody waits past this reading: a deadline is an instant, and so is the slot before which a
pause begins. -/
def latest : Nat := (horizon + longestPause) / Nanos.perMilli + 1

theorem le_latest (h : nanos time < horizon + longestPause + Nanos.perMilli) : time ≤ latest := by
  have hmul : Nanos.perMilli * latest =
      Nanos.perMilli * ((horizon + longestPause) / Nanos.perMilli) + Nanos.perMilli :=
    Nat.mul_add_one ..
  have hdiv := Nat.lt_mul_div_succ (horizon + longestPause) (show 0 < Nanos.perMilli by decide)
  rw [Nat.mul_add_one] at hdiv
  refine Nat.le_of_lt_succ (Nat.lt_of_mul_lt_mul_left (a := Nanos.perMilli) ?_)
  rw [Nat.mul_add_one, hmul]
  exact Nat.lt_of_lt_of_le h (by omega)

/-- Something that begins at a reading takes at most `time` milliseconds. It is done by the latest
reading, unless it begins later. -/
structure Waits (now time now' : Nat) : Prop where
  le : now ≤ now'
  within : now' ≤ now + time
  early : now' ≤ max now latest

theorem Waits.refl (now : Nat) : Waits now 0 now :=
  ⟨Nat.le_refl _, Nat.le_refl _, Nat.le_max_left ..⟩

theorem Waits.trans (h : Waits now time now') (h' : Waits now' time' now'') :
    Waits now (time + time') now'' where
  le := Nat.le_trans h.le h'.le
  within := by have hle := h.within; have hle' := h'.within; omega
  early := by have hle := h.early; have hle' := h'.early; omega

theorem Waits.mono (h : Waits now time now') (hle : time ≤ time') : Waits now time' now' :=
  ⟨h.le, Nat.le_trans h.within (Nat.add_le_add_left hle _), h.early⟩

/-- Whoever waits for a deadline is done by it. -/
theorem Waits.of_deadline (h : deadline now span = .ok time) (hle : now ≤ now')
    (hmax : now' ≤ max now time) : Waits now span.millisUp now' := by
  obtain ⟨hreach, rfl⟩ := of_deadline_eq_ok h
  have hlatest : now + span.millisUp ≤ latest := by
    apply le_latest
    have hround := mul_roundUp_lt span.nanos (show 0 < Nanos.perMilli by decide)
    rw [nanos, Nat.mul_add]
    unfold nanos at hreach
    unfold Span.millisUp
    omega
  exact ⟨hle, by omega, by omega⟩

end Waits

end Clock

end MarketLoad
