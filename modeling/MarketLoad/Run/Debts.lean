import MarketLoad.Identity

/-! # What a run owes

A run owes each of its traders one outcome for each of their sessions. The traders who are owed
any are kept with the number of outcomes that they are owed. -/

namespace MarketLoad

/-- The outcomes that are owed, counted by trader. -/
structure Debts where
  entries : List (Trader × Nat)
  nodup : (entries.map (·.1)).Nodup
  positive : ∀ e ∈ entries, 0 < e.2

namespace Debts

/-- Counts one more for a trader. -/
def increase (trader : Trader) : List (Trader × Nat) → List (Trader × Nat)
  | [] => [(trader, 1)]
  | (t, n) :: rest => if t = trader then (t, n + 1) :: rest else (t, n) :: increase trader rest

/-- Counts one less for a trader. A trader with nothing left is struck off; one who is not owed
anything is passed over. -/
def decrease (trader : Trader) : List (Trader × Nat) → List (Trader × Nat)
  | [] => []
  | (t, n) :: rest =>
    if t = trader then if n - 1 = 0 then rest else (t, n - 1) :: rest
    else (t, n) :: decrease trader rest

theorem mem_traders_increase {trader t : Trader} {entries : List (Trader × Nat)}
    (h : t ∈ (increase trader entries).map (·.1)) : t = trader ∨ t ∈ entries.map (·.1) := by
  induction entries with
  | nil => simpa [increase] using h
  | cons e rest ih =>
    simp only [increase] at h
    split at h
    · exact .inr h
    · rcases List.mem_cons.1 h with h | h
      · exact .inr (h ▸ List.mem_cons_self)
      · exact (ih h).imp_right (List.mem_cons_of_mem _)

theorem nodup_increase (trader : Trader) {entries : List (Trader × Nat)}
    (h : (entries.map (·.1)).Nodup) : ((increase trader entries).map (·.1)).Nodup := by
  induction entries with
  | nil => simp [increase]
  | cons e rest ih =>
    obtain ⟨hn, hr⟩ := List.nodup_cons.1 h
    simp only [increase]
    split
    · exact h
    · rename_i he
      refine List.nodup_cons.2 ⟨fun hm => ?_, ih hr⟩
      exact (mem_traders_increase hm).elim he hn

theorem positive_increase (trader : Trader) {entries : List (Trader × Nat)}
    (h : ∀ e ∈ entries, 0 < e.2) : ∀ e ∈ increase trader entries, 0 < e.2 := by
  induction entries with
  | nil => simp [increase]
  | cons e rest ih =>
    obtain ⟨he, hr⟩ := List.forall_mem_cons.1 h
    simp only [increase]
    split
    · exact List.forall_mem_cons.2 ⟨Nat.succ_pos _, hr⟩
    · exact List.forall_mem_cons.2 ⟨he, ih hr⟩

theorem sublist_decrease (trader : Trader) (entries : List (Trader × Nat)) :
    ((decrease trader entries).map (·.1)).Sublist (entries.map (·.1)) := by
  induction entries with
  | nil => exact .slnil
  | cons e rest ih =>
    simp only [decrease]
    split
    · split
      · exact List.sublist_cons_self ..
      · exact List.Sublist.refl _
    · exact ih.cons_cons _

theorem positive_decrease (trader : Trader) {entries : List (Trader × Nat)}
    (h : ∀ e ∈ entries, 0 < e.2) : ∀ e ∈ decrease trader entries, 0 < e.2 := by
  induction entries with
  | nil => simp [decrease]
  | cons e rest ih =>
    obtain ⟨he, hr⟩ := List.forall_mem_cons.1 h
    simp only [decrease]
    split
    · split
      · exact hr
      · exact List.forall_mem_cons.2 ⟨Nat.pos_of_ne_zero ‹_›, hr⟩
    · exact List.forall_mem_cons.2 ⟨he, ih hr⟩

def empty : Debts := ⟨[], List.nodup_nil, by simp⟩

/-- Owes a trader one more outcome. -/
def owe (d : Debts) (trader : Trader) : Debts :=
  ⟨increase trader d.entries, nodup_increase trader d.nodup, positive_increase trader d.positive⟩

/-- Settles one outcome of a trader, if any is owed. -/
def settle (d : Debts) (trader : Trader) : Debts :=
  ⟨decrease trader d.entries, d.nodup.sublist (sublist_decrease trader _),
    positive_decrease trader d.positive⟩

/-- One outcome is owed for each trader of a list. -/
def ofTraders (traders : List Trader) : Debts := traders.foldl owe empty

/-- The traders who are owed, each as often as they are. -/
def traders (d : Debts) : List Trader := d.entries.flatMap fun (t, n) => List.replicate n t

end Debts

end MarketLoad
