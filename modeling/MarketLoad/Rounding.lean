/-! # Rounding quotients

A quotient of natural numbers rounded to the nearest integer, with the two rules for halves
that the library uses. -/

namespace MarketLoad

/-- The quotient `n / d` rounded to the nearest integer, a half upwards. -/
def roundHalfUp (n d : Nat) : Nat := (2 * n + d) / (2 * d)

/-- The quotient `n / d` rounded to the nearest integer, a half to the even neighbour. -/
def roundHalfEven (n d : Nat) : Nat :=
  let q := n / d
  let r := n % d
  if 2 * r < d then q
  else if 2 * r = d then q + q % 2
  else q + 1

/-- The least integer not below `n / d`. -/
def roundUp (n d : Nat) : Nat := (n + (d - 1)) / d

theorem roundHalfUp_le {n d : Nat} (hd : 2 ≤ d) : roundHalfUp n d ≤ n := by
  unfold roundHalfUp
  apply Nat.le_of_lt_succ
  rw [Nat.div_lt_iff_lt_mul (by omega), Nat.succ_eq_add_one]
  have h : n * 2 ≤ n * d := Nat.mul_le_mul_left _ hd
  have h' : (n + 1) * (2 * d) = 2 * (n * d) + 2 * d := by
    rw [Nat.add_mul, Nat.mul_left_comm]; omega
  omega

end MarketLoad
