import MarketLoad.Failure

/-! # Faults

A fault is the end of a computation that has no result: a counter past its width, a deadline
past the end of time, an identity that no command can carry. A fault inside a session worker
does not reach its siblings; the run turns it into a failed outcome. -/

namespace MarketLoad

/-- Why a computation has no result. -/
inductive Fault
  /-- A sum past its width. -/
  | addOverflow
  /-- A difference below zero. -/
  | subOverflow
  /-- The negation of the least signed number. -/
  | negOverflow
  /-- A time past the end of the clock. -/
  | clockOverflow
  /-- A price whose integer part no decimal holds. -/
  | productOverflow
  /-- A text that cannot be a trader. -/
  | badTrader
  /-- A text that cannot be a symbol. -/
  | badSymbol
  /-- An outcome was to be failed by a failure that sessions survive. -/
  | notFatal (failure : SessionFailure)
  /-- The server side of a connection broke down, with a text or without. -/
  | crash (text : Option String)
deriving DecidableEq, Repr

namespace Fault

def message : Fault → String
  | addOverflow => "attempt to add with overflow"
  | subOverflow => "attempt to subtract with overflow"
  | negOverflow => "attempt to negate with overflow"
  | clockOverflow => "overflow when adding duration to instant"
  | productOverflow => "Multiplication overflowed"
  | badTrader => "TraderId must be non-empty and free of ':' and newlines"
  | badSymbol => "Symbol must be non-empty and free of ':' and newlines"
  | notFatal failure => "non-fatal error cannot fail a session: " ++ failure.message
  | crash (some text) => text
  | crash none => "unknown panic"

end Fault

/-- The sum of two counters, unless it passes their width. -/
def addCounters (a b : UInt64) : Except Fault UInt64 :=
  if a.toNat + b.toNat < UInt64.size then .ok (a + b) else .error .addOverflow

theorem toNat_of_addCounters {a b sum : UInt64} (h : addCounters a b = .ok sum) :
    sum.toNat = a.toNat + b.toNat := by
  unfold addCounters at h
  split at h
  · rename_i hlt
    cases h
    rw [UInt64.toNat_add]
    exact Nat.mod_eq_of_lt hlt
  · cases h

theorem bind_eq_ok {ε α β : Type} {x : Except ε α} {f : α → Except ε β} {b : β} :
    x >>= f = .ok b ↔ ∃ a, x = .ok a ∧ f a = .ok b := by
  cases x with
  | error fault => exact ⟨nofun, nofun⟩
  | ok a => exact ⟨fun h => ⟨a, rfl, h⟩, fun ⟨_, ha, h⟩ => by cases ha; exact h⟩

theorem bind_eq_error {α β : Type} {x : Except Fault α} {f : α → Except Fault β} {fault : Fault} :
    x >>= f = .error fault ↔ x = .error fault ∨ ∃ a, x = .ok a ∧ f a = .error fault := by
  cases x with
  | error fault' =>
    refine ⟨fun h => .inl (by cases h; rfl), ?_⟩
    rintro (⟨⟨⟩⟩ | ⟨a, ⟨⟩, -⟩)
    rfl
  | ok a =>
    refine ⟨fun h => .inr ⟨a, rfl, h⟩, ?_⟩
    rintro (⟨⟨⟩⟩ | ⟨a, ⟨⟩, h⟩)
    exact h

end MarketLoad
