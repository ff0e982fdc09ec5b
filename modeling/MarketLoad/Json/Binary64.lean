import MarketLoad.Binary64.Text
import MarketLoad.Json.Recorded

/-! # Double-precision numbers in JSON

A number is written by its shortest digits: positional from `1e-5` to below `1e16`, with at
least one fraction digit, otherwise with one digit before the point and an exponent. Reading
takes the leading digits that fit 64 bits and multiplies or divides by a power of ten in
double precision. -/

namespace MarketLoad.Binary64

open Text

/-- Positional notation starts at this power of ten. -/
def leastPositional : Int := -5

/-- Positional notation ends below this power of ten. -/
def endPositional : Int := 16

/-- The shortest digits of a number that is not zero, as a JSON number. -/
def decimalNumeral (negative : Bool) (x : Decimals) : Numeral :=
  let ds := digits x.digits
  let power : Int := ds.length + x.exponent - 1
  if leastPositional ≤ power ∧ power < endPositional then
    if 0 ≤ x.exponent then
      { negative, whole := ds ++ List.replicate x.exponent.toNat '0', fraction := some ['0'],
        exponent := none }
    else
      let scale := (-x.exponent).toNat
      { negative, whole := digits (x.digits / tenTo scale),
        fraction := some (paddedDigits scale (x.digits % tenTo scale)), exponent := none }
  else
    { negative, whole := ds.take 1,
      fraction := if ds.length = 1 then none else some (ds.drop 1),
      exponent := some (decide (power < 0), digits power.natAbs) }

/-- The number as a JSON number; only finite numbers have one. -/
def toNumeral? : Binary64 → Option Numeral
  | nan | infinite _ => none
  | finite negative m e =>
    some <|
      if m = 0 then { negative, whole := ['0'], fraction := some ['0'], exponent := none }
      else decimalNumeral negative (shortest .even m e)

/-- Takes digits onto `n` as long as it fits 64 bits; the result has the digits left over. -/
def absorbDigits (n : Nat) : List Char → Nat × List Char
  | [] => (n, [])
  | c :: cs =>
    let next := 10 * n + (digitValue? c).getD 0
    if next < UInt64.size then absorbDigits next cs else (n, c :: cs)

/-- Divides by `10 ^ k`, by at most `10 ^ 308` at a time. -/
def divideTens (x : Binary64) (k : Nat) : Binary64 :=
  if k ≤ 308 then x.div (.ofNat (tenTo k))
  else if x.isZero then x
  else divideTens (x.div (.ofNat (tenTo 308))) (k - 308)
termination_by k

/-- `n * 10 ^ e` in double precision, unless that is too large. -/
def ofParts? (n : Nat) (e : Int) : Option Binary64 :=
  let x := ofNat n
  if e < 0 then some (divideTens x e.natAbs)
  else if e ≤ 308 then
    match x.mul (.ofNat (tenTo e.natAbs)) with
    | .infinite _ => none
    | y => some y
  else if x.isZero then some x
  else none

/-- The value of a JSON number. -/
def ofNumeral? (x : Numeral) : Option Binary64 :=
  let (n, dropped) := absorbDigits 0 x.whole
  let fraction := x.fraction.getD []
  let (n, unread) := absorbDigits n fraction
  let start : Int := dropped.length - (fraction.length - unread.length : Nat)
  let magnitude? :=
    match x.exponent with
    | none => ofParts? n start
    | some (negative, ds) =>
      let e := ofDigits ds
      if e < twoTo 31 then ofParts? n (if negative then start - e else start + e)
      else if n = 0 ∨ negative then some (zero false)
      else none
  magnitude?.map fun y => if x.negative then y.neg else y

instance : Recorded Binary64 where
  toRecord x := (x.toNumeral?.map Json.number).getD .null
  ofRecord?
    | .number n => ofNumeral? n
    | _ => none

end MarketLoad.Binary64
