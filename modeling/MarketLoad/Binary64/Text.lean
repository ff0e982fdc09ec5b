import MarketLoad.Binary64.Basic
import MarketLoad.Decimal.Text

/-! # Double-precision numbers as text

`Binary64.shortest` finds the fewest decimal digits that read back as the number, and
`Binary64.plain` writes them without an exponent. `Binary64.fixed` rounds the exact value to a
number of places.
`Binary64.ofDecimal` and `Binary64.ofText?` read decimals, always to the nearest number. -/

namespace MarketLoad.Binary64

open Text

/-- Which of two equally near decimals to take. -/
inductive Tie
  | even
  | up
deriving DecidableEq

/-- A decimal `digits * 10 ^ exponent`. -/
structure Decimals where
  digits : Nat
  exponent : Int
deriving DecidableEq, Repr

/-- Multiplies the ratio `n / d` by `10 ^ e`. -/
def timesTen (n d : Nat) (e : Int) : Nat × Nat :=
  if 0 ≤ e then (n * tenTo e.toNat, d) else (n, d * tenTo (-e).toNat)

/-- The number of digits before the point of `n / d`; zero or less for a ratio below one, by
the zeros that follow the point. -/
def magnitude (n d : Nat) : Int :=
  if d ≤ n then (digits (n / d)).length
  else
    let len := (digits (d / n)).length
    if n * tenTo (len - 1) = d then 2 - (len : Int) else 1 - (len : Int)

/-- The multiple of `10 ^ place` next to `value = n / d` that lies between `low / d` and
`high / d` (ends included or not), if there is one: the nearer of the two neighbours. -/
def neighbour? (tie : Tie) (low n high d : Nat) (closed : Bool) (place : Int) : Option Nat :=
  let inside := fun (c : Nat) =>
    let (a, b) := timesTen c 1 place
    if closed then low * b ≤ a * d && a * d ≤ high * b
    else low * b < a * d && a * d < high * b
  let (a, b) := timesTen n d (-place)
  let c := a / b
  let twice := 2 * (a % b)
  match inside c, inside (c + 1) with
  | false, false => none
  | true, false => some c
  | false, true => some (c + 1)
  | true, true =>
    if twice < b then some c
    else if b < twice then some (c + 1)
    else match tie with
      | .even => some (c + c % 2)
      | .up => some (c + 1)

/-- Tries the decimals with `count`, `count + 1`, … digits, `more + 1` counts in all. -/
def searchDigits (tie : Tie) (low n high d : Nat) (closed : Bool) (top : Int) (count : Nat) :
    (more : Nat) → Decimals
  | 0 =>
    let place := top - count
    ⟨(neighbour? tie low n high d closed place).getD 0, place⟩
  | more + 1 =>
    let place := top - count
    match neighbour? tie low n high d closed place with
    | some c => ⟨c, place⟩
    | none => searchDigits tie low n high d closed top (count + 1) more

/-- A decimal without zeros at its end; `fuel` bounds their number. -/
def dropZeros (x : Decimals) : (fuel : Nat) → Decimals
  | 0 => x
  | fuel + 1 =>
    if x.digits ≠ 0 ∧ x.digits % 10 = 0 then dropZeros ⟨x.digits / 10, x.exponent + 1⟩ fuel else x

/-- The shortest decimal that reads back as `significand * 2 ^ exponent`, the nearest one of
those. The decimals that read back lie within half a step to either neighbour, where the step
below a power of two is half as wide; the ends belong to an even significand. -/
def shortest (tie : Tie) (significand : Nat) (exponent : Int) : Decimals :=
  let below := if significand = twoTo 52 ∧ minExponent < exponent then 1 else 2
  let (unit, d) := ratio 1 (exponent - 2)
  let n := 4 * significand * unit
  let low := (4 * significand - below) * unit
  let high := (4 * significand + 2) * unit
  dropZeros (searchDigits tie low n high d (significand % 2 == 0) (magnitude n d) 1 16) 20

/-- Digits and exponent written in full, with a point only where digits follow it. -/
def plainChars (x : Decimals) : List Char :=
  if 0 ≤ x.exponent then digits x.digits ++ List.replicate x.exponent.toNat '0'
  else MarketLoad.Decimal.pointed x.digits (-x.exponent).toNat

/-- A sign, if negative, before some text. -/
def withSign (negative : Bool) (cs : List Char) : String :=
  String.ofList (if negative then '-' :: cs else cs)

/-- The number by its shortest digits, never with an exponent; whole numbers have no point. -/
def plain : Binary64 → String
  | nan => "NaN"
  | infinite negative => withSign negative "inf".toList
  | finite negative m e =>
    withSign negative (if m = 0 then ['0'] else plainChars (shortest .up m e))

/-- The exact value rounded to `places` fraction digits, a half to the even neighbour. -/
def fixed (places : Nat) : Binary64 → String
  | nan => "NaN"
  | infinite negative => withSign negative "inf".toList
  | finite negative m e =>
    let (n, d) := ratio m e
    withSign negative (MarketLoad.Decimal.pointed (roundHalfEven (n * tenTo places) d) places)

/-! ## Reading -/

/-- The number nearest to `± digits * 10 ^ exponent`. Decimals far outside the range are
decided by their size alone. -/
def ofDecimal (negative : Bool) (x : Decimals) : Binary64 :=
  if x.digits = 0 then zero negative
  else
    let top : Int := (digits x.digits).length + x.exponent
    if 310 < top then .infinite negative
    else if top < -330 then zero negative
    else
      let (n, d) := timesTen x.digits 1 x.exponent
      ofRatio negative n d

/-- Digits with an optional point, at least one digit. -/
def readPointed? (cs : List Char) : Option (Decimals × List Char) :=
  let (whole, rest) := cs.span Char.isDigit
  let (fraction, rest) := match rest with
    | '.' :: rest => rest.span Char.isDigit
    | rest => ([], rest)
  if whole.isEmpty && fraction.isEmpty then none
  else some (⟨ofDigits (whole ++ fraction), -(fraction.length : Int)⟩, rest)

/-- An exponent with its mark, up to the end of the text; no text is the exponent zero. -/
def readExponent? : List Char → Option Int
  | [] => some 0
  | c :: rest =>
    if c = 'e' ∨ c = 'E' then
      match rest with
      | '-' :: ds => (readNat? ds).map fun n => -(n : Int)
      | '+' :: ds => (readNat? ds).map fun n => (n : Int)
      | ds => (readNat? ds).map fun n => (n : Int)
    else none

/-- Reads a number as command lines give it: a decimal, `inf`, `infinity` or `nan` in any
case, with an optional sign. -/
def ofText? (text : String) : Option Binary64 :=
  let (negative, body) := match text.toList with
    | '-' :: rest => (true, rest)
    | '+' :: rest => (false, rest)
    | rest => (false, rest)
  let word := String.ofList (body.map Char.toLower)
  if word = "inf" ∨ word = "infinity" then some (.infinite negative)
  else if word = "nan" then some .nan
  else do
    let (x, rest) ← readPointed? body
    let e ← readExponent? rest
    return ofDecimal negative ⟨x.digits, x.exponent + e⟩

end MarketLoad.Binary64
