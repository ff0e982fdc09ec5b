import MarketLoad.Session.Trading

/-!
# One slot at a time

Serving a slot makes one cycle for it, or ends the window without one (`Trading.serve_cases`); the
steps of `Trading.serveFrom` are equations, by the way in which serving a slot ended. So the cycles
of a window are made one after the other (`Trading.makes_serveFrom`), and an unbroken worker counts
each as sent or skipped (`Tally.Faithful`) and keeps what counting keeps
(`Trading.serveFrom_keeps`).
-/

namespace MarketLoad

open Venue

/-- A tally counts its cycles: those whose order was sent, and the others. -/
structure Tally.Faithful (y : Tally) : Prop where
  sent : y.sent.toNat = y.cycles.countP (·.sent)
  skipped : y.skipped.toNat = y.cycles.countP (!·.sent)

theorem Tally.cycles_of_count {y y' : Tally} {c : Cycle} (h : y.count c = .ok y') :
    y'.cycles = y.cycles := by
  unfold Tally.count at h
  split at h
  · obtain ⟨sent, -, h⟩ := bind_eq_ok.1 h
    split at h
    · cases h
      rfl
    · obtain ⟨latency, -, h⟩ := bind_eq_ok.1 h
      cases h
      rfl
  · obtain ⟨skipped, -, h⟩ := bind_eq_ok.1 h
    cases h
    rfl

namespace Tally.Faithful

theorem empty : Faithful .empty := ⟨rfl, rfl⟩

theorem sent_add_skipped {y : Tally} (h : y.Faithful) :
    y.sent.toNat + y.skipped.toNat = y.cycles.length := by
  rw [h.sent, h.skipped, List.length_eq_countP_add_countP (·.sent)]
  simp only [Bool.not_eq_true, Bool.decide_eq_false]

/-- Counting a cycle that was logged keeps the count right. -/
theorem count {y y' : Tally} {c : Cycle} (h : y.Faithful) (hc : (y.log c).count c = .ok y') :
    y'.Faithful := by
  have hone : (1 : UInt64).toNat = 1 := rfl
  unfold Tally.count at hc
  split at hc
  · rename_i hsent
    obtain ⟨sent, hadd, hc⟩ := bind_eq_ok.1 hc
    have hy : y'.sent = sent ∧ y'.skipped = y.skipped ∧ y'.cycles = c :: y.cycles := by
      split at hc
      · cases hc
        exact ⟨rfl, rfl, rfl⟩
      · obtain ⟨latency, -, hc⟩ := bind_eq_ok.1 hc
        cases hc
        exact ⟨rfl, rfl, rfl⟩
    obtain ⟨hy, hskipped, hcycles⟩ := hy
    refine ⟨?_, ?_⟩
    · rw [hy, hcycles, toNat_of_addCounters hadd, List.countP_cons_of_pos hsent, hone]
      exact congrArg (· + 1) h.sent
    · rw [hskipped, hcycles, List.countP_cons_of_neg (by simp [hsent])]
      exact h.skipped
  · rename_i hsent
    obtain ⟨skipped, hadd, hc⟩ := bind_eq_ok.1 hc
    have hnat := toNat_of_addCounters hadd
    cases hc
    refine ⟨?_, ?_⟩
    · simp only [Tally.log]
      rw [List.countP_cons_of_neg hsent]
      exact h.sent
    · simp only [Tally.log]
      rw [hnat, List.countP_cons_of_pos (by simpa using hsent), hone]
      exact congrArg (· + 1) h.skipped

end Tally.Faithful

namespace Trading

variable {s : SessionSettings} {opened slot time : Nat} {flow flow' : OrderFlow}
  {tally tally' : Tally} {l l' : Link} {fault : Fault}

theorem slot_cycle (slot : Nat) (flow : OrderFlow) (l : Link) :
    (cycle s slot flow l).1.slot = slot ∧ (cycle s slot flow l).1.start = l.now := by
  unfold cycle
  split
  · exact ⟨rfl, rfl⟩
  · exact ⟨rfl, rfl⟩
  · exact ⟨rfl, rfl⟩

/-- The first slot of a window is not waited for. -/
theorem expire_first (l : Link) : l.expire (l.now + roundUp 0 Nanos.perMilli) = l := by
  have hzero : roundUp 0 Nanos.perMilli = 0 := by decide
  rw [hzero, Link.expire, Nat.add_zero, Nat.max_self]

/-- Serving a slot ends the window without a cycle, because the slot or the time is past it, or
makes one cycle. The worker breaks by a fault of the cycle, because it cannot be counted or because
the clock ends; otherwise the cycle ends the window or leaves time for a further interval. -/
theorem serve_cases {served : Served} {opens : Link}
    (hs : serve s opened slot flow tally l = (served, tally', l'))
    (hopens : l.expire (opened + roundUp slot Nanos.perMilli) = opens) :
    ((s.duration.nanos < slot ∨ s.duration.nanos < age opened opens.now) ∧
      tally' = tally ∧ l' = opens ∧ served = .last) ∨
    (slot ≤ s.duration.nanos ∧ age opened opens.now ≤ s.duration.nanos ∧
      ∃ c flow', cycle s slot flow opens = (c, flow', l') ∧ tally'.cycles = c :: tally.cycles ∧
        ((∃ fault, served = .broken fault ∧ (c.fault = some fault ∨
            (tally.log c).count c = .error fault ∨ fault = .clockOverflow)) ∨
          (c.fault = none ∧ (tally.log c).count c = .ok tally') ∧
            (served = .last ∨ served = .more (age opened opens.now) flow'))) := by
  unfold serve at hs
  rw [hopens] at hs
  dsimp only at hs
  by_cases hlate : s.duration.nanos < slot ∨ s.duration.nanos < age opened opens.now
  · rw [if_pos hlate] at hs
    cases hs
    exact .inl ⟨hlate, rfl, rfl, rfl⟩
  rw [if_neg hlate] at hs
  rw [not_or, Nat.not_lt, Nat.not_lt] at hlate
  refine .inr ⟨hlate.1, hlate.2, ?_⟩
  rcases hc : cycle s slot flow opens with ⟨c, flow', l₁⟩
  rw [hc] at hs
  dsimp only at hs
  cases hfault : c.fault with
  | some fault =>
    rw [hfault] at hs
    cases hs
    exact ⟨c, flow', rfl, rfl, .inl ⟨fault, rfl, .inl hfault⟩⟩
  | none =>
    rw [hfault] at hs
    cases hcount : (tally.log c).count c with
    | error fault =>
      rw [hcount] at hs
      cases hs
      exact ⟨c, flow', rfl, rfl, .inl ⟨fault, rfl, .inr (.inl hcount)⟩⟩
    | ok counted =>
      rw [hcount] at hs
      have hcycles := Tally.cycles_of_count hcount
      dsimp only at hs
      split at hs
      · cases hs
        exact ⟨c, flow', rfl, hcycles, .inl ⟨_, rfl, .inr (.inr rfl)⟩⟩
      · split at hs
        · cases hs
          exact ⟨c, flow', rfl, hcycles, .inr ⟨⟨hfault, hcount⟩, .inl rfl⟩⟩
        · cases hs
          exact ⟨c, flow', rfl, hcycles, .inr ⟨⟨hfault, hcount⟩, .inr rfl⟩⟩

/-- A cycle ends the window only if this has no room for a further interval. -/
theorem no_room_of_serve (hs : serve s opened slot flow tally l = (.last, tally', l'))
    (hcycle : tally'.cycles ≠ tally.cycles) : s.duration.nanos < slot + s.interval.nanos := by
  unfold serve at hs
  generalize l.expire (opened + roundUp slot Nanos.perMilli) = opens at hs
  dsimp only at hs
  split at hs
  · cases hs
    exact absurd rfl hcycle
  rcases hc : cycle s slot flow opens with ⟨c, flow', l₁⟩
  rw [hc] at hs
  dsimp only at hs
  split at hs
  · cases hs
  split at hs
  · cases hs
  split at hs
  · cases hs
  split at hs
  · assumption
  · cases hs

/-- Serving a slot in the window, in a cycle that can be counted. -/
theorem serve_of_count {opens : Link} {c : Cycle}
    (hopens : l.expire (opened + roundUp slot Nanos.perMilli) = opens)
    (hslot : slot ≤ s.duration.nanos) (hage : age opened opens.now ≤ s.duration.nanos)
    (hcycle : cycle s slot flow opens = (c, flow', l')) (hfault : c.fault = none)
    (hcount : (tally.log c).count c = .ok tally')
    (hreach : Clock.reaches (Clock.nanos opened + slot) s.interval = true) :
    serve s opened slot flow tally l =
      (if s.duration.nanos < slot + s.interval.nanos then .last
        else .more (age opened opens.now) flow', tally', l') := by
  have hwindow : ¬ (s.duration.nanos < slot ∨ s.duration.nanos < age opened opens.now) :=
    not_or.2 ⟨Nat.not_lt.2 hslot, Nat.not_lt.2 hage⟩
  unfold serve
  rw [hopens]
  dsimp only
  rw [if_neg hwindow, hcycle]
  dsimp only
  rw [hfault]
  dsimp only
  rw [hcount]
  dsimp only
  rw [hreach, Bool.not_true, if_neg Bool.false_ne_true]
  split <;> rfl

theorem serveFrom_of_broken
    (h : serve s opened slot flow tally l = (.broken fault, tally', l')) :
    serveFrom s opened slot flow tally l = (some fault, tally', l') := by
  rw [serveFrom, h]

theorem fst_serveFrom_of_broken (h : (serve s opened slot flow tally l).1 = .broken fault) :
    (serveFrom s opened slot flow tally l).1 = some fault := by
  rcases hs : serve s opened slot flow tally l with ⟨served, tally', l'⟩
  rw [hs] at h
  subst h
  rw [serveFrom_of_broken hs]

theorem serveFrom_of_last (h : serve s opened slot flow tally l = (.last, tally', l')) :
    serveFrom s opened slot flow tally l = (none, tally', l') := by
  rw [serveFrom, h]

theorem serveFrom_of_more (h : serve s opened slot flow tally l = (.more time flow', tally', l'))
    (hnext : 0 < Clock.pause s.interval ∧ slot ≤ s.duration.nanos) :
    serveFrom s opened slot flow tally l =
      serveFrom s opened (nextSlot (Clock.pause s.interval) slot time) flow' tally' l' := by
  rw [serveFrom, h]
  exact dif_pos hnext

theorem serveFrom_of_only (h : serve s opened slot flow tally l = (.more time flow', tally', l'))
    (hnext : ¬ (0 < Clock.pause s.interval ∧ slot ≤ s.duration.nanos)) :
    serveFrom s opened slot flow tally l = (none, tally', l') := by
  rw [serveFrom, h]
  exact dif_neg hnext

/-- What counting a cycle without a fault keeps, an unbroken worker keeps. -/
theorem serve_keeps {P : Tally → Prop} {served : Served}
    (count : ∀ y y' c, P y → c.fault = none → (y.log c).count c = .ok y' → P y')
    (hs : serve s opened slot flow tally l = (served, tally', l'))
    (hnot : ∀ fault, served ≠ .broken fault) (h : P tally) : P tally' := by
  obtain ⟨-, rfl, -, -⟩ | ⟨-, -, c, flow', -, -, hend⟩ := serve_cases hs rfl
  · exact h
  · obtain ⟨fault, hbroken, -⟩ | ⟨⟨hfault, hcount⟩, -⟩ := hend
    · exact absurd hbroken (hnot fault)
    · exact count _ _ c h hfault hcount

theorem serveFrom_keeps {P : Tally → Prop}
    (count : ∀ y y' c, P y → c.fault = none → (y.log c).count c = .ok y' → P y') (opened slot : Nat)
    (flow : OrderFlow) (tally : Tally) (l : Link) (h : P tally)
    (hnone : (serveFrom s opened slot flow tally l).1 = none) :
    P (serveFrom s opened slot flow tally l).2.1 := by
  induction slot, flow, tally, l using serveFrom.induct s opened with
  | case1 slot flow tally l fault tally' l' hs =>
    rw [serveFrom_of_broken hs] at hnone
    cases hnone
  | case2 slot flow tally l tally' l' hs =>
    rw [serveFrom_of_last hs]
    exact serve_keeps count hs nofun h
  | case3 slot flow tally l time flow' tally' l' hs hmore ih =>
    rw [serveFrom_of_more hs hmore] at hnone ⊢
    exact ih (serve_keeps count hs nofun h) hnone
  | case4 slot flow tally l time flow' tally' l' hs hmore =>
    rw [serveFrom_of_only hs hmore]
    exact serve_keeps count hs nofun h

/-- Some cycles are made one after the other, each once its slot has come: they draw their orders
from a flow and take a client from one link to another. -/
inductive Makes (s : SessionSettings) : OrderFlow → Link → List Cycle → Link → Prop
  | none {flow : OrderFlow} {l : Link} (time : Nat) : Makes s flow l [] (l.expire time)
  | cycle {flow flow' : OrderFlow} {l l' l'' : Link} {time slot : Nat} {c : Cycle}
      {cycles : List Cycle} : Trading.cycle s slot flow (l.expire time) = (c, flow', l') →
      Makes s flow' l' cycles l'' → Makes s flow l (c :: cycles) l''

theorem Makes.refl (s : SessionSettings) (flow : OrderFlow) (l : Link) : Makes s flow l [] l := by
  have hself : l.expire l.now = l := by rw [Link.expire, Nat.max_self]
  have hnone : Makes s flow l [] (l.expire l.now) := .none l.now
  rwa [hself] at hnone

/-- Serving a slot makes the cycles that it adds, and those of later slots follow them. -/
theorem makes_serve {served : Served} (hs : serve s opened slot flow tally l = (served, tally', l')) :
    ∃ added, tally'.cycles = added ++ tally.cycles ∧ Makes s flow l added.reverse l' ∧
      ∀ time flow', served = .more time flow' → ∀ cycles l'', Makes s flow' l' cycles l'' →
        Makes s flow l (added.reverse ++ cycles) l'' := by
  obtain ⟨-, rfl, rfl, rfl⟩ | ⟨-, -, c, flow', hcycle, hcycles, hend⟩ := serve_cases hs rfl
  · exact ⟨[], rfl, .none _, nofun⟩
  · refine ⟨[c], hcycles, .cycle hcycle (.refl ..), fun time flow'' hmore cycles l'' hlater => ?_⟩
    obtain ⟨fault, rfl, -⟩ | ⟨-, rfl | rfl⟩ := hend
    · cases hmore
    · cases hmore
    · cases hmore
      exact .cycle hcycle hlater

/-- Serving all slots makes the cycles that are added. -/
theorem makes_serveFrom (opened slot : Nat) (flow : OrderFlow) (tally : Tally) (l : Link) :
    ∃ added, (serveFrom s opened slot flow tally l).2.1.cycles = added ++ tally.cycles ∧
      Makes s flow l added.reverse (serveFrom s opened slot flow tally l).2.2 := by
  induction slot, flow, tally, l using serveFrom.induct s opened with
  | case1 slot flow tally l fault tally' l' hs =>
    rw [serveFrom_of_broken hs]
    obtain ⟨added, hadded, hmakes, -⟩ := makes_serve hs
    exact ⟨added, hadded, hmakes⟩
  | case2 slot flow tally l tally' l' hs =>
    rw [serveFrom_of_last hs]
    obtain ⟨added, hadded, hmakes, -⟩ := makes_serve hs
    exact ⟨added, hadded, hmakes⟩
  | case3 slot flow tally l time flow' tally' l' hs hmore ih =>
    obtain ⟨added, hadded, -, hlater⟩ := makes_serve hs
    obtain ⟨later, hcycles, hmakes⟩ := ih
    rw [serveFrom_of_more hs hmore]
    refine ⟨later ++ added, ?_, ?_⟩
    · rw [hcycles, hadded, List.append_assoc]
    · rw [List.reverse_append]
      exact hlater time flow' rfl _ _ hmakes
  | case4 slot flow tally l time flow' tally' l' hs hmore =>
    rw [serveFrom_of_only hs hmore]
    obtain ⟨added, hadded, hmakes, -⟩ := makes_serve hs
    exact ⟨added, hadded, hmakes⟩

/-- Serving all slots adds to the cycles, and an unbroken worker counts what it adds. -/
theorem serveFrom_adds (opened slot : Nat) (flow : OrderFlow) (tally : Tally) (l : Link) :
    (∃ added, (serveFrom s opened slot flow tally l).2.1.cycles = added ++ tally.cycles) ∧
      ((serveFrom s opened slot flow tally l).1 = none → tally.Faithful →
        (serveFrom s opened slot flow tally l).2.1.Faithful) := by
  obtain ⟨added, hadded, -⟩ := makes_serveFrom (s := s) opened slot flow tally l
  refine ⟨⟨added, hadded⟩, fun hnone h => ?_⟩
  exact serveFrom_keeps (fun _ _ _ hy _ => hy.count) opened slot flow tally l h hnone

theorem perform_of_reaches (h : Clock.reaches (Clock.nanos l.now) s.duration = true) :
    perform s l = serveFrom s l.now 0 s.flow .empty l := if_pos h

/-- An unbroken worker has served the slots of its window. -/
theorem perform_of_eq_none (h : (perform s l).1 = none) :
    perform s l = serveFrom s l.now 0 s.flow .empty l := by
  by_cases hreach : Clock.reaches (Clock.nanos l.now) s.duration = true
  · exact perform_of_reaches hreach
  · rw [perform, if_neg hreach] at h
    cases h

/-- Trading makes the cycles that it keeps. -/
theorem makes_perform (s : SessionSettings) (l : Link) :
    Makes s s.flow l (perform s l).2.1.cycles.reverse (perform s l).2.2 := by
  unfold perform
  split
  · obtain ⟨added, hadded, hmakes⟩ := makes_serveFrom (s := s) l.now 0 s.flow .empty l
    rw [hadded]
    exact (List.append_nil added).symm ▸ hmakes
  · exact .refl ..

/-- The cycles of an unbroken worker have no faults. -/
theorem fault_of_perform (h : (perform s l).1 = none) :
    ∀ c ∈ (perform s l).2.1.cycles, c.fault = none := by
  have hperform := perform_of_eq_none h
  rw [hperform] at h ⊢
  refine serveFrom_keeps (P := fun y => ∀ c ∈ y.cycles, c.fault = none) ?_ _ _ _ _ _ nofun h
  intro y y' c hy hfault hcount
  rw [Tally.cycles_of_count hcount]
  exact List.forall_mem_cons.2 ⟨hfault, hy⟩

end Trading

end MarketLoad
