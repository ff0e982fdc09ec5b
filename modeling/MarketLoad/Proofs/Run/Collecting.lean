import MarketLoad.Run.Collector

/-!
# Debts and their settlement

The debts of a run as a list of traders (`Debts.traders`): owing adds a trader to it and settling
erases one (`Debts.traders_owe`, `Debts.traders_settle`). Through this view a collector always owes
what was asked for less what has come in (`Collector.Balanced`), and its observer has seen exactly
the outcomes that it keeps.
-/

namespace MarketLoad

namespace Debts

variable {trader : Trader} {entries : List (Trader × Nat)}

/-- The traders of some entries, each as often as counted. -/
private def spread (entries : List (Trader × Nat)) : List Trader :=
  entries.flatMap fun (t, n) => List.replicate n t

private theorem spread_cons (t : Trader) (n : Nat) (rest : List (Trader × Nat)) :
    spread ((t, n) :: rest) = List.replicate n t ++ spread rest := rfl

private theorem spread_increase (trader : Trader) (entries : List (Trader × Nat)) :
    (spread (increase trader entries)).Perm (trader :: spread entries) := by
  induction entries with
  | nil => exact .refl _
  | cons e rest ih =>
    obtain ⟨t, n⟩ := e
    simp only [increase]
    split
    · rename_i h
      subst h
      exact .refl _
    · rw [spread_cons, spread_cons]
      exact (ih.append_left _).trans List.perm_middle

private theorem spread_decrease (hpos : ∀ e ∈ entries, 0 < e.2) :
    spread (decrease trader entries) = (spread entries).erase trader := by
  induction entries with
  | nil => rfl
  | cons e rest ih =>
    obtain ⟨t, n⟩ := e
    obtain ⟨hn, hr⟩ := List.forall_mem_cons.1 hpos
    obtain ⟨m, rfl⟩ : ∃ m, n = m + 1 := ⟨n - 1, by simp only at hn; omega⟩
    simp only [decrease, Nat.add_sub_cancel]
    split
    · rename_i h
      subst h
      rw [spread_cons, List.replicate_succ, List.cons_append, List.erase_cons_head]
      split
      · rename_i hm
        rw [hm]; rfl
      · rfl
    · rename_i h
      have hnot : trader ∉ List.replicate (m + 1) t := fun hm => h (List.eq_of_mem_replicate hm).symm
      rw [spread_cons, spread_cons, List.erase_append_right _ hnot, ih hr]

theorem traders_owe (d : Debts) (trader : Trader) :
    (d.owe trader).traders.Perm (trader :: d.traders) :=
  spread_increase trader d.entries

theorem traders_settle (d : Debts) (trader : Trader) :
    (d.settle trader).traders = d.traders.erase trader :=
  spread_decrease d.positive

theorem traders_foldl_owe (d : Debts) (traders : List Trader) :
    (traders.foldl owe d).traders.Perm (d.traders ++ traders) := by
  induction traders generalizing d with
  | nil => rw [List.append_nil]; exact .refl _
  | cons trader rest ih =>
    refine (ih (d.owe trader)).trans ?_
    exact ((traders_owe d trader).append_right rest).trans List.perm_middle.symm

/-- One outcome is owed for each trader asked for, repeated ones included. -/
theorem traders_ofTraders (traders : List Trader) : (ofTraders traders).traders.Perm traders :=
  traders_foldl_owe empty traders

end Debts

namespace Collector

variable {σ : Type} {observe : σ → Outcome → σ} {state : σ} {requested : List Trader}

@[simp] theorem outcomes_keep (c : Collector σ) (o : Outcome) :
    (c.keep observe o).outcomes = c.outcomes ++ [o] := List.reverse_cons

@[simp] theorem outcomes_receive (c : Collector σ) (o : Outcome) :
    (c.receive observe o).outcomes = c.outcomes ++ [o] := List.reverse_cons

/-- What a collector owes is what was asked for less what came in, and its observer has seen what
came in, in order. -/
structure Balanced (observe : σ → Outcome → σ) (state : σ) (requested : List Trader)
    (c : Collector σ) : Prop where
  owed : (c.outcomes.map (·.trader) ++ c.owed.traders).Perm requested
  observed : c.observed = c.outcomes.foldl observe state

theorem Balanced.start : Balanced observe state requested (start requested state) where
  owed := Debts.traders_ofTraders requested
  observed := rfl

/-- Receiving keeps the balance as long as the outcome is owed. -/
theorem Balanced.receive {c : Collector σ} {o : Outcome}
    (h : Balanced observe state requested c) (ho : o.trader ∈ c.owed.traders) :
    Balanced observe state requested (c.receive observe o) where
  owed := by
    have hs : (c.receive observe o).owed.traders = c.owed.traders.erase o.trader :=
      Debts.traders_settle c.owed o.trader
    rw [hs, outcomes_receive, List.map_append, List.append_assoc]
    exact ((List.perm_cons_erase ho).symm.append_left _).trans h.owed
  observed := by
    rw [outcomes_receive, List.foldl_append, ← h.observed]; rfl

theorem outcomes_foldl_keep (c : Collector σ) (os : List Outcome) :
    (os.foldl (keep observe) c).outcomes = c.outcomes ++ os := by
  induction os generalizing c with
  | nil => rw [List.append_nil]; rfl
  | cons o os ih => rw [List.foldl_cons, ih, outcomes_keep, List.append_assoc]; rfl

theorem observed_foldl_keep (c : Collector σ) (os : List Outcome) :
    (os.foldl (keep observe) c).observed = os.foldl observe c.observed := by
  induction os generalizing c with
  | nil => rfl
  | cons o os ih => exact ih (c.keep observe o)

theorem outcomes_settle (c : Collector σ) (elapsed : Span) :
    (c.settle observe elapsed).outcomes =
      c.outcomes ++ c.owed.traders.map (lostOutcome elapsed) :=
  outcomes_foldl_keep c _

theorem observed_settle {c : Collector σ} (h : Balanced observe state requested c)
    (elapsed : Span) :
    (c.settle observe elapsed).observed =
      (c.settle observe elapsed).outcomes.foldl observe state := by
  rw [outcomes_settle, List.foldl_append, ← h.observed]
  exact observed_foldl_keep c _

theorem map_trader_lostOutcome (elapsed : Span) (traders : List Trader) :
    (traders.map (lostOutcome elapsed)).map (·.trader) = traders := by
  rw [List.map_map]
  exact List.map_id _

/-- Settling makes up for exactly what is owed. -/
theorem traders_settle {c : Collector σ} (h : Balanced observe state requested c)
    (elapsed : Span) :
    ((c.settle observe elapsed).outcomes.map (·.trader)).Perm requested := by
  rw [outcomes_settle, List.map_append, map_trader_lostOutcome]
  exact h.owed

end Collector

end MarketLoad
