import MarketLoad.Toml.Value

/-! # Numbers, dates and truth values of TOML

Each reader takes a value off the front of a text and returns what follows it. An underscore may
stand between two digits. Integers fit 64 bits with a sign; a float that is too large is no value.
-/

namespace MarketLoad.Toml

open Text

/-- Digits of a kind with single underscores between them: the digits without the underscores,
and what follows. A text without digits reads as none. -/
def readGroups (isDigit : Char → Bool) : List Char → List Char × List Char
  | [] => ([], [])
  | c :: rest =>
    if isDigit c then
      let (ds, left) := match rest with
        | '_' :: d :: rest' => if isDigit d then readGroups isDigit (d :: rest') else ([], rest)
        | rest => readGroups isDigit rest
      (c :: ds, left)
    else ([], c :: rest)

/-- An optional sign: whether it is negative, and what follows. -/
def readSign : List Char → Bool × List Char
  | '-' :: rest => (true, rest)
  | '+' :: rest => (false, rest)
  | rest => (false, rest)

/-- The digits of a decimal whole number: a zero alone, or digits that start with another. -/
def readWhole? (cs : List Char) : Option (List Char × List Char) :=
  match cs with
  | '0' :: rest => some (['0'], rest)
  | cs =>
    match readGroups Char.isDigit cs with
    | ([], _) => none
    | (ds, rest) => some (ds, rest)

/-- An integer, if it fits 64 bits. -/
def integer? (n : Int) : Option Toml :=
  if Int64.minValue.toInt ≤ n ∧ n ≤ Int64.maxValue.toInt then some (.integer n) else none

/-- Digits of a base, as they follow its mark. -/
def readBased? (base : Nat) (cs : List Char) : Option (Toml × List Char) :=
  let isDigit := fun c => ((hexValue? c).map fun v => decide (v < base)).getD false
  match readGroups isDigit cs with
  | ([], _) => none
  | (ds, rest) =>
    (integer? ((ds.foldl (fun n c => base * n + (hexValue? c).getD 0) 0 : Nat) : Int)).map (·, rest)

def readInteger? (cs : List Char) : Option (Toml × List Char) :=
  match cs with
  | '0' :: 'x' :: rest => readBased? 16 rest
  | '0' :: 'o' :: rest => readBased? 8 rest
  | '0' :: 'b' :: rest => readBased? 2 rest
  | cs => do
    let (negative, rest) := readSign cs
    let (ds, rest) ← readWhole? rest
    let n : Int := ofDigits ds
    return (← integer? (if negative then -n else n), rest)

/-- The digits after a point, at least one. -/
def readFraction? : List Char → Option (List Char × List Char)
  | '.' :: rest =>
    match readGroups Char.isDigit rest with
    | ([], _) => none
    | (ds, rest) => some (ds, rest)
  | _ => none

def readExponent? : List Char → Option (Int × List Char)
  | c :: rest =>
    if c = 'e' ∨ c = 'E' then
      let (negative, rest) := readSign rest
      match readGroups Char.isDigit rest with
      | ([], _) => none
      | (ds, rest) =>
        let e : Int := ofDigits ds
        some (if negative then -e else e, rest)
    else none
  | [] => none

/-- Reads a float: a whole number with a fraction, an exponent or both. A positive number that
is too large is refused. -/
def readDecimal? (cs : List Char) : Option (Toml × List Char) := do
  let (negative, rest) := readSign cs
  let (whole, rest) ← readWhole? rest
  let (fraction, exponent, rest) ←
    match readFraction? rest with
    | some (fraction, rest) =>
      match readExponent? rest with
      | some (exponent, rest) => some (fraction, exponent, rest)
      | none => some (fraction, 0, rest)
    | none => (readExponent? rest).map fun (exponent, rest) => ([], exponent, rest)
  let x := Binary64.ofDecimal negative
    ⟨ofDigits (whole ++ fraction), exponent - (fraction.length : Int)⟩
  if x = .infinite false then none else return (.float x, rest)

/-- Reads `inf` or `nan` with an optional sign. -/
def readSpecial? (cs : List Char) : Option (Toml × List Char) :=
  let (negative, rest) := readSign cs
  match rest with
  | 'i' :: 'n' :: 'f' :: rest => some (.float (.infinite negative), rest)
  | 'n' :: 'a' :: 'n' :: rest => some (.float .nan, rest)
  | _ => none

def readBoolean? : List Char → Option (Toml × List Char)
  | 't' :: 'r' :: 'u' :: 'e' :: rest => some (.boolean true, rest)
  | 'f' :: 'a' :: 'l' :: 's' :: 'e' :: rest => some (.boolean false, rest)
  | _ => none

/-! ## Dates -/

/-- A number of exactly `width` digits between two bounds. -/
def readField? (width low high : Nat) (cs : List Char) : Option (Nat × List Char) := do
  let ds := cs.take width
  if ds.length = width then
    let n ← readNat? ds
    if low ≤ n ∧ n ≤ high then some (n, cs.drop width) else none
  else none

/-- What follows a given character. -/
def afterChar? (mark : Char) : List Char → Option (List Char)
  | c :: rest => if c = mark then some rest else none
  | [] => none

def monthLength (year month : Nat) : Nat :=
  if month = 2 then
    (if year % 4 = 0 ∧ (year % 100 ≠ 0 ∨ year % 400 = 0) then 29 else 28)
  else if month = 4 ∨ month = 6 ∨ month = 9 ∨ month = 11 then 30
  else 31

/-- What follows a date. -/
def afterDay? (cs : List Char) : Option (List Char) := do
  let (year, cs) ← readField? 4 0 9999 cs
  let (month, cs) ← readField? 2 1 12 (← afterChar? '-' cs)
  let (_, cs) ← readField? 2 1 (monthLength year month) (← afterChar? '-' cs)
  return cs

/-- What follows a time of day. -/
def afterTime? (cs : List Char) : Option (List Char) := do
  let (_, cs) ← readField? 2 0 23 cs
  let (_, cs) ← readField? 2 0 59 (← afterChar? ':' cs)
  let (_, cs) ← readField? 2 0 60 (← afterChar? ':' cs)
  match cs with
  | '.' :: c :: rest => if c.isDigit then return rest.dropWhile Char.isDigit else return cs
  | cs => return cs

/-- What follows an offset from universal time. -/
def afterOffset? : List Char → Option (List Char)
  | [] => none
  | c :: rest =>
    if c = 'Z' ∨ c = 'z' then some rest
    else if c = '+' ∨ c = '-' then do
      let (_, cs) ← readField? 2 0 23 rest
      let (_, cs) ← readField? 2 0 59 (← afterChar? ':' cs)
      return cs
    else none

/-- What follows the time of day, and perhaps its offset, that may follow a date. -/
def afterDayTime (cs : List Char) : List Char :=
  match cs with
  | [] => []
  | c :: rest =>
    if c = 'T' ∨ c = 't' ∨ c = ' ' then
      match afterTime? rest with
      | some rest => (afterOffset? rest).getD rest
      | none => cs
    else cs

/-- Reads a date, a time of day, or both. -/
def readDate? (cs : List Char) : Option (Toml × List Char) :=
  match afterDay? cs with
  | some rest => some (.date, afterDayTime rest)
  | none => (afterTime? cs).map (Toml.date, ·)

/-- Reads a number, a date or a truth value. -/
def readScalar? (cs : List Char) : Option (Toml × List Char) :=
  (readDate? cs).or <| (readDecimal? cs).or <| (readSpecial? cs).or <|
    (readInteger? cs).or <| readBoolean? cs

end MarketLoad.Toml
