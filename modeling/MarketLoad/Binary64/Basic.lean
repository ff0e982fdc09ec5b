import MarketLoad.Powers
import MarketLoad.Rounding

/-! # Double-precision numbers

Binary floating-point numbers with 53 significant bits, as exact values: a finite number is
`significand * 2 ^ exponent` with a sign. Every operation is the exact one on rationals
followed by `Binary64.ofRatio`, which rounds to the nearest number, halves to the even
significand. -/

namespace MarketLoad

/-- A double-precision number. Finite numbers keep the significand below `2 ^ 53` and, unless
the exponent is the least one, at `2 ^ 52` or above. -/
inductive Binary64
  | nan
  | infinite (negative : Bool)
  | finite (negative : Bool) (significand : Nat) (exponent : Int)
deriving DecidableEq, Repr

namespace Binary64

def minExponent : Int := -1074

def maxExponent : Int := 971

/-- Zero with a sign. -/
def zero (negative : Bool) : Binary64 := .finite negative 0 minExponent

/-- The ratio `n / (d * 2 ^ e)` as a numerator and a denominator. -/
def scaledRatio (n d : Nat) (e : Int) : Nat × Nat :=
  if 0 ≤ e then (n, d * twoTo e.toNat) else (n * twoTo (-e).toNat, d)

/-- The number nearest to `± n / d`. -/
def ofRatio (negative : Bool) (n d : Nat) : Binary64 :=
  if n = 0 then zero negative
  else
    let guess : Int := max minExponent (n.log2 - d.log2 - 53)
    let (a, b) := scaledRatio n d guess
    let e := if a / b < twoTo 53 then guess else guess + 1
    let (a, b) := scaledRatio n d e
    let m := roundHalfEven a b
    let (m, e) := if m = twoTo 53 then (twoTo 52, e + 1) else (m, e)
    if maxExponent < e then .infinite negative else .finite negative m e

/-- The number nearest to a natural number. -/
def ofNat (n : Nat) : Binary64 := ofRatio false n 1

/-- The number nearest to an integer. -/
def ofInt (n : Int) : Binary64 := ofRatio (decide (n < 0)) n.natAbs 1

/-- A magnitude `m * 2 ^ e` as a numerator and a denominator. -/
def ratio (m : Nat) (e : Int) : Nat × Nat :=
  if 0 ≤ e then (m * twoTo e.toNat, 1) else (m, twoTo (-e).toNat)

def neg : Binary64 → Binary64
  | nan => nan
  | infinite s => infinite (!s)
  | finite s m e => finite (!s) m e

def add : Binary64 → Binary64 → Binary64
  | nan, _ | _, nan => nan
  | infinite s, infinite t => if s = t then infinite s else nan
  | infinite s, finite .. | finite .., infinite s => infinite s
  | finite s m e, finite t n f =>
    let least := min e f
    let a : Int := (if s then -1 else 1) * (m * twoTo (e - least).toNat : Nat)
    let b : Int := (if t then -1 else 1) * (n * twoTo (f - least).toNat : Nat)
    if a + b = 0 then zero (s && t)
    else
      let (k, d) := ratio (a + b).natAbs least
      ofRatio (decide (a + b < 0)) k d

def mul : Binary64 → Binary64 → Binary64
  | nan, _ | _, nan => nan
  | infinite s, infinite t => infinite (s != t)
  | infinite s, finite t m _ | finite t m _, infinite s => if m = 0 then nan else infinite (s != t)
  | finite s m e, finite t n f =>
    let (k, d) := ratio (m * n) (e + f)
    ofRatio (s != t) k d

def div : Binary64 → Binary64 → Binary64
  | nan, _ | _, nan => nan
  | infinite _, infinite _ => nan
  | infinite s, finite t .. => infinite (s != t)
  | finite s .., infinite t => zero (s != t)
  | finite s m e, finite t n f =>
    if n = 0 then (if m = 0 then nan else infinite (s != t))
    else
      let (k, d) := ratio m (e - f)
      ofRatio (s != t) k (d * n)

def isPositive : Binary64 → Bool
  | nan => false
  | infinite s => !s
  | finite s m _ => !s && m != 0

/-- Whether the number is zero, of either sign. -/
def isZero : Binary64 → Bool
  | finite _ m _ => m == 0
  | _ => false

end Binary64

end MarketLoad
