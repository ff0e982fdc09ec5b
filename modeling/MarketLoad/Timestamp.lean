import MarketLoad.Nanos
import MarketLoad.Powers
import MarketLoad.Text.Blank
import MarketLoad.Text.Digits

/-! # Timestamps

Instants of the proleptic Gregorian calendar in universal time, to the nanosecond. They are
written as in `2024-01-02T03:04:05.500Z`, with as many groups of three fraction digits as the
nanoseconds need, and read with any offset. A leap second keeps the sixtieth second. -/

namespace MarketLoad

/-- An instant: seconds since the start of 1970, and nanoseconds of the second. In a leap
second, which shares its number with the second before, the nanoseconds start at a whole second. -/
structure Timestamp where
  seconds : Int
  nanos : Nat
deriving DecidableEq, Repr

namespace Timestamp

open Text

/-! ## The calendar -/

def isLeapYear (year : Int) : Bool := year % 4 == 0 && (year % 100 != 0 || year % 400 == 0)

def daysInMonth (year : Int) (month : Nat) : Nat :=
  if month = 2 then (if isLeapYear year then 29 else 28)
  else if month = 4 ∨ month = 6 ∨ month = 9 ∨ month = 11 then 30
  else 31

/-- The days from the start of 1970 to a date. Years are counted from March, so that a leap
day ends its year. -/
def daysOfDate (year : Int) (month day : Nat) : Int :=
  let y := if month ≤ 2 then year - 1 else year
  let m : Int := ((month + 9) % 12 : Nat)
  365 * y + y / 4 - y / 100 + y / 400 + (153 * m + 2) / 5 + (day - 1) - 719468

/-- The year, month and day of a number of days since the start of 1970. -/
def dateOfDays (days : Int) : Int × Nat × Nat :=
  let z := days + 719468
  let era := z / 146097
  let dayOfEra := z % 146097
  let yearOfEra := (dayOfEra - dayOfEra / 1460 + dayOfEra / 36524 - dayOfEra / 146096) / 365
  let dayOfYear := dayOfEra - (365 * yearOfEra + yearOfEra / 4 - yearOfEra / 100)
  let m := (5 * dayOfYear + 2) / 153
  let day := dayOfYear - (153 * m + 2) / 5 + 1
  let month := if m < 10 then m + 3 else m - 9
  let year := yearOfEra + era * 400 + (if month ≤ 2 then 1 else 0)
  (year, month.toNat, day.toNat)

/-- The first and the last year of the calendar. -/
def yearInRange (year : Int) : Bool := -262143 ≤ year && year ≤ 262142

/-! ## Writing -/

/-- A year: four digits, and a sign if they do not suffice. -/
def yearChars (year : Int) : List Char :=
  if 0 ≤ year ∧ year ≤ 9999 then paddedDigits 4 year.toNat
  else (if year < 0 then '-' else '+') :: paddedDigits 4 year.natAbs

/-- The fraction of a second in groups of three digits. -/
def fractionChars (nanos : Nat) : List Char :=
  if nanos = 0 then []
  else if nanos % Nanos.perMilli = 0 then '.' :: paddedDigits 3 (nanos / Nanos.perMilli)
  else if nanos % Nanos.perMicro = 0 then '.' :: paddedDigits 6 (nanos / Nanos.perMicro)
  else '.' :: paddedDigits 9 nanos

def text (t : Timestamp) : String :=
  let (year, month, day) := dateOfDays (t.seconds / 86400)
  let clock := (t.seconds % 86400).toNat
  let leap := Nanos.perSecond ≤ t.nanos
  let second := clock % 60 + (if leap then 1 else 0)
  let nanos := if leap then t.nanos - Nanos.perSecond else t.nanos
  String.ofList <|
    yearChars year ++ '-' :: paddedDigits 2 month ++ '-' :: paddedDigits 2 day ++ 'T' ::
      paddedDigits 2 (clock / 3600) ++ ':' :: paddedDigits 2 (clock / 60 % 60) ++ ':' ::
      paddedDigits 2 second ++ fractionChars nanos ++ ['Z']

/-! ## Reading -/

/-- What follows blanks. -/
def skipBlanks (cs : List Char) : List Char := cs.dropWhile isBlank

/-- One to `most` digits, and what follows. -/
def readUpTo? (most : Nat) (cs : List Char) : Option (Nat × List Char) :=
  let ds := (cs.take most).takeWhile Char.isDigit
  if ds.isEmpty then none else some (ofDigits ds, cs.drop ds.length)

/-- A number of one or two digits after blanks. -/
def readTwo? (cs : List Char) : Option (Nat × List Char) := readUpTo? 2 (skipBlanks cs)

/-- A year: up to four digits, or a sign and any number of digits. -/
def readYear? (cs : List Char) : Option (Int × List Char) :=
  match skipBlanks cs with
  | '-' :: rest => (readUpTo? rest.length rest).map fun (n, rest) => (-(n : Int), rest)
  | '+' :: rest => (readUpTo? rest.length rest).map fun (n, rest) => ((n : Int), rest)
  | rest => (readUpTo? 4 rest).map fun (n, rest) => ((n : Int), rest)

/-- What follows a given character after blanks. -/
def readMark? (mark : Char) (cs : List Char) : Option (List Char) :=
  match skipBlanks cs with
  | c :: rest => if c = mark then some rest else none
  | [] => none

/-- The fraction of a second, if there is one; digits past the ninth are passed over. -/
def readFraction? : List Char → Option (Nat × List Char)
  | '.' :: rest =>
    let ds := (rest.take 9).takeWhile Char.isDigit
    if ds.isEmpty then none
    else some (ofDigits ds * tenTo (9 - ds.length), (rest.drop ds.length).dropWhile Char.isDigit)
  | rest => some (0, rest)

/-- The separator of date and time. -/
def readSeparator? : List Char → Option (List Char)
  | c :: rest => if c = 'T' ∨ c = 't' ∨ c = ' ' then some rest else none
  | [] => none

/-- The seconds by which local time is ahead of universal time. -/
def readOffset? (cs : List Char) : Option (Int × List Char) :=
  if (cs.take 3).map Char.toUpper = "UTC".toList then some (0, cs.drop 3)
  else
    match cs with
    | [] => none
    | c :: rest =>
      if c = 'Z' ∨ c = 'z' then some (0, rest)
      else if c = '+' ∨ c = '-' ∨ c = '−' then
        match rest with
        | h₁ :: h₂ :: rest => do
          let hours ← readNat? [h₁, h₂]
          match rest.dropWhile fun c => c == ':' || isBlank c with
          | m₁ :: m₂ :: rest => do
            let minutes ← readNat? [m₁, m₂]
            if minutes < 60 then
              let offset : Int := (hours * 3600 + minutes * 60 : Nat)
              return (if c = '+' then offset else -offset, rest)
            else none
          | _ => none
        | _ => none
      else none

/-- The instant of a local date and time, if there is such a time. -/
def ofLocal? (year : Int) (month day hour minute second nanos : Nat) (offset : Int) :
    Option Timestamp :=
  let valid :=
    yearInRange year && 1 ≤ month && month ≤ 12 && 1 ≤ day && day ≤ daysInMonth year month &&
      hour ≤ 23 && minute ≤ 59 && second ≤ 60 && -86400 < offset && offset < 86400
  let clock := hour * 3600 + minute * 60 + min second 59
  let seconds := daysOfDate year month day * 86400 + clock - offset
  if valid && yearInRange (dateOfDays (seconds / 86400)).1 then
    some { seconds, nanos := if second = 60 then nanos + Nanos.perSecond else nanos }
  else none

/-- Reads a timestamp. Blanks may stand between its parts and at its end. -/
def ofText? (s : String) : Option Timestamp := do
  let (year, cs) ← readYear? s.toList
  let (month, cs) ← readTwo? (← readMark? '-' cs)
  let (day, cs) ← readTwo? (← readMark? '-' cs)
  let (hour, cs) ← readTwo? (← readSeparator? cs)
  let (minute, cs) ← readTwo? (← readMark? ':' cs)
  let (second, cs) ← readTwo? (← readMark? ':' cs)
  let (nanos, cs) ← readFraction? cs
  let (offset, cs) ← readOffset? (skipBlanks cs)
  if (skipBlanks cs).isEmpty then ofLocal? year month day hour minute second nanos offset
  else none

/-- The start of 1970. -/
def epoch : Timestamp := ⟨0, 0⟩

end Timestamp

end MarketLoad
