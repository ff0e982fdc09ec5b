import MarketLoad.Decimal.Rounding
import MarketLoad.Text.Digits

/-! # Decimals as text

`Decimal.text` writes every fraction digit of the scale; `Decimal.fixed` writes a given
number of places and cuts off the rest. Reading comes in two grades: `Decimal.readExact?`
refuses what a decimal cannot hold, `Decimal.readRounded?` rounds excess fraction digits and
also takes an exponent. -/

namespace MarketLoad.Decimal

open Text

/-- Digits with a point before the last `scale` of them, at least one before the point. -/
def pointed (magnitude scale : Nat) : List Char :=
  if scale = 0 then digits magnitude
  else digits (magnitude / tenTo scale) ++ '.' :: paddedDigits scale (magnitude % tenTo scale)

/-- The sign of the number before some text. -/
def withSign (d : Decimal) (body : List Char) : String :=
  String.ofList (if d.negative then '-' :: body else body)

/-- The number with all the fraction digits of its scale. -/
def text (d : Decimal) : String := withSign d (pointed d.coefficient d.scale)

/-- The number with exactly `places` fraction digits: excess digits are cut off, missing
ones are zeros. The sign stays even when only zeros are left. -/
def fixed (d : Decimal) (places : Nat) : String :=
  let kept :=
    if d.scale ≤ places then d.coefficient * tenTo (places - d.scale)
    else d.coefficient / tenTo (d.scale - places)
  withSign d (pointed kept places)

/-- What a reader does with fraction digits that a decimal cannot hold. -/
inductive Excess
  | refuse
  | round
deriving DecidableEq

/-- Ends a reading at an excess digit: from five on it rounds away from zero, and the rest
must still be digits. A coefficient that rounds past its limit gives up one more place. -/
def roundAt? (negative : Bool) (coefficient scale digit : Nat) (rest : List Char) :
    Option Decimal :=
  if !rest.all (fun c => c.isDigit || c = '_') then none
  else if digit < 5 then ofParts? negative coefficient scale
  else if coefficient + 1 < coefficientLimit then ofParts? negative (coefficient + 1) scale
  else if scale = 0 then none
  else ofParts? negative ((coefficient + 5) / 10) (scale - 1)

/-- A coefficient from here on, before its last digit, makes a long number. -/
def longFrom : Nat := UInt64.size / 10 - 255

/-- Ends a reading at the first excess character. An underscore there is a digit below five
in a short number; in a long one it is passed over, and the first digit decides. -/
def roundExcess? (negative : Bool) (coefficient scale : Nat) : List Char → Option Decimal
  | [] => ofParts? negative coefficient scale
  | c :: rest =>
    if c = '_' then
      if coefficient / 10 < longFrom then roundAt? negative coefficient scale 0 rest
      else roundExcess? negative coefficient scale rest
    else (digitValue? c).bind fun digit => roundAt? negative coefficient scale digit rest

/-- Reads digits with at most one point; `_` may stand anywhere after the first digit.
`begun` tells whether a digit has been read, `point` whether the point has. -/
def readDigits? (excess : Excess) (negative : Bool) :
    (begun point : Bool) → (coefficient scale : Nat) → List Char → Option Decimal
  | begun, _, coefficient, scale, [] =>
    if begun then ofParts? negative coefficient scale else none
  | begun, point, coefficient, scale, c :: rest =>
    if point && scale == maxScale then
      match excess with
      | .refuse => none
      | .round => roundExcess? negative coefficient scale (c :: rest)
    else
      match digitValue? c with
      | some digit =>
        let next := 10 * coefficient + digit
        if next < coefficientLimit then
          readDigits? excess negative true point next (if point then scale + 1 else scale) rest
        else if point && excess == .round then
          roundExcess? negative coefficient scale (c :: rest)
        else none
      | none =>
        if c = '.' && !point then readDigits? excess negative begun true coefficient scale rest
        else if c = '_' && begun then readDigits? excess negative begun point coefficient scale rest
        else none

/-- Reads an optional sign and then digits. -/
def readWith? (excess : Excess) : List Char → Option Decimal
  | '+' :: rest => readDigits? excess false false false 0 0 rest
  | '-' :: rest => readDigits? excess true false false 0 0 rest
  | rest => readDigits? excess false false false 0 0 rest

/-- Reads a plain decimal and refuses one with too many digits. -/
def readExact? (text : String) : Option Decimal := readWith? .refuse text.toList

/-- Reads a plain decimal, rounding excess fraction digits away from zero at a half. -/
def readRounded? (text : String) : Option Decimal := readWith? .round text.toList

/-- The decimal times `10 ^ exponent`: the scale shrinks, and past zero the number must be a
whole one in range. -/
def shiftUp? (d : Decimal) (exponent : Nat) : Option Decimal :=
  if exponent ≤ d.scale then ofParts? d.negative d.coefficient (d.scale - exponent)
  else if maxScale < exponent then none
  else ofParts? d.negative (d.coefficient * tenTo (exponent - d.scale)) 0

/-- The decimal times `10 ^ -exponent`: the scale grows, and digits that the greatest scale
leaves no room for are rounded away, a half away from zero. The sign stays even when only
zeros are left. -/
def shiftDown? (d : Decimal) (exponent : Nat) : Option Decimal :=
  if maxScale < exponent then none
  else if h : d.scale + exponent ≤ maxScale then
    some { d with scale := d.scale + exponent, scale_le := h }
  else
    some
      { negative := d.negative
        coefficient := d.cutDigits (d.scale + exponent - maxScale)
        scale := maxScale
        coefficient_lt := d.cutDigits_lt (by omega)
        scale_le := Nat.le_refl _ }

/-- The digits of an exponent, perhaps after a plus sign. -/
def readExponent? (cs : List Char) : Option Nat :=
  let ds := match cs with
    | '+' :: rest => rest
    | rest => rest
  (readNat? ds).filter (· < UInt32.size)

/-- Reads a decimal with an exponent, such as `1.5e2`. -/
def readScientific? (text : String) : Option Decimal :=
  let cs := text.toList
  let isMark := fun c => c == 'e' || c == 'E'
  match cs.dropWhile (!isMark ·) with
  | [] => none
  | _ :: tail => do
    let d ← readWith? .round (cs.takeWhile (!isMark ·))
    match tail with
    | '-' :: ds => d.shiftDown? (← readExponent? ds)
    | ds => d.shiftUp? (← readExponent? ds)

/-- Reads a decimal as records hold it: plain and rounded, or else with an exponent. -/
def read? (text : String) : Option Decimal :=
  (readRounded? text).or (readScientific? text)

end MarketLoad.Decimal
