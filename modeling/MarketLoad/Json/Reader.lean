import MarketLoad.Json.Value
import MarketLoad.Text.Digits

/-! # Reading JSON

`Json.parse?` reads one value with blanks around it. Strings are read in two passes: first
into characters and 16-bit units from escapes, then the units are joined into characters. -/

namespace MarketLoad.Json

open Text

/-- The blanks between tokens. -/
def isSpace (c : Char) : Bool := c == ' ' || c == '\n' || c == '\t' || c == '\r'

/-- What is left after blanks. -/
def skipSpaces (cs : List Char) : List Char := cs.dropWhile isSpace

/-! ## Strings -/

/-- A piece of a string: a character, or a 16-bit unit from a `\\u` escape. -/
inductive Piece
  | char (c : Char)
  | unit (n : Nat)

/-- The character of a two-character escape. -/
def simpleEscape? (c : Char) : Option Char :=
  if c = '"' ∨ c = '\\' ∨ c = '/' then some c
  else if c = 'b' then some '\x08'
  else if c = 'f' then some '\x0c'
  else if c = 'n' then some '\n'
  else if c = 'r' then some '\r'
  else if c = 't' then some '\t'
  else none

/-- The pieces of a string up to its closing quote, and what follows the quote. -/
def readPieces? : List Char → Option (List Piece × List Char)
  | [] => none
  | c :: rest =>
    if c = '"' then some ([], rest)
    else if c = '\\' then
      match rest with
      | [] => none
      | e :: rest =>
        if e = 'u' then
          match rest with
          | h₁ :: h₂ :: h₃ :: h₄ :: rest => do
            let n ← readHexFrom? 0 [h₁, h₂, h₃, h₄]
            let (pieces, rest) ← readPieces? rest
            return (.unit n :: pieces, rest)
          | _ => none
        else do
          let c ← simpleEscape? e
          let (pieces, rest) ← readPieces? rest
          return (.char c :: pieces, rest)
    else if c.toNat < 0x20 then none
    else do
      let (pieces, rest) ← readPieces? rest
      return (.char c :: pieces, rest)

/-- A unit that must be followed by one of the lower kind. -/
def isUpperHalf (n : Nat) : Bool := 0xd800 ≤ n && n ≤ 0xdbff

/-- A unit that must follow one of the upper kind. -/
def isLowerHalf (n : Nat) : Bool := 0xdc00 ≤ n && n ≤ 0xdfff

/-- The characters that the pieces denote; `none` if half a character stands alone. -/
def joinPieces? : List Piece → Option (List Char)
  | [] => some []
  | .char c :: pieces => (joinPieces? pieces).map (c :: ·)
  | .unit n :: pieces =>
    if isUpperHalf n then
      match pieces with
      | .unit m :: pieces =>
        if isLowerHalf m then
          (joinPieces? pieces).map
            (Char.ofNat (0x10000 + (n - 0xd800) * 0x400 + (m - 0xdc00)) :: ·)
        else none
      | _ => none
    else if isLowerHalf n then none
    else (joinPieces? pieces).map (Char.ofNat n :: ·)

/-- Reads a string after its opening quote. -/
def readString? (cs : List Char) : Option (Option String × List Char) := do
  let (pieces, rest) ← readPieces? cs
  return ((joinPieces? pieces).map String.ofList, rest)

/-! ## Numbers -/

/-- The digits at the front, at least one. -/
def readDigits? (cs : List Char) : Option (List Char × List Char) :=
  match cs.span Char.isDigit with
  | ([], _) => none
  | (ds, rest) => some (ds, rest)

/-- The digits after a point, if there is one. -/
def readFraction? : List Char → Option (Option (List Char) × List Char)
  | '.' :: rest => (readDigits? rest).map fun (ds, rest) => (some ds, rest)
  | rest => some (none, rest)

def readExponent? (cs : List Char) : Option (Option (Bool × List Char) × List Char) :=
  match cs with
  | c :: rest =>
    if c = 'e' ∨ c = 'E' then
      let (negative, rest) := match rest with
        | '-' :: rest => (true, rest)
        | '+' :: rest => (false, rest)
        | rest => (false, rest)
      (readDigits? rest).map fun (ds, rest) => (some (negative, ds), rest)
    else some (none, cs)
  | [] => some (none, [])

/-- Reads a number; its whole part has no superfluous zero in front. -/
def readNumeral? (cs : List Char) : Option (Numeral × List Char) := do
  let (negative, rest) := match cs with
    | '-' :: rest => (true, rest)
    | rest => (false, rest)
  let (whole, rest) ← readDigits? rest
  if whole.head? = some '0' ∧ whole ≠ ['0'] then none
  else do
    let (fraction, rest) ← readFraction? rest
    let (exponent, rest) ← readExponent? rest
    return ({ negative, whole, fraction, exponent }, rest)

/-! ## Values -/

/-- What follows a given word. -/
def afterWord? : List Char → List Char → Option (List Char)
  | [], rest => some rest
  | w :: word, c :: cs => if w = c then afterWord? word cs else none
  | _ :: _, [] => none

mutual

/-- Reads a value, with at most `fuel` steps into its structure. -/
def readValue? (fuel : Nat) (cs : List Char) : Option (Json × List Char) :=
  match fuel with
  | 0 => none
  | fuel + 1 =>
    match skipSpaces cs with
    | [] => none
    | c :: rest =>
      if c = 'n' then (afterWord? "ull".toList rest).map (Json.null, ·)
      else if c = 't' then (afterWord? "rue".toList rest).map (Json.bool true, ·)
      else if c = 'f' then (afterWord? "alse".toList rest).map (Json.bool false, ·)
      else if c = '"' then (readString? rest).map fun (s, rest) => (.string s, rest)
      else if c = '[' then
        match skipSpaces rest with
        | ']' :: rest => some (.array [], rest)
        | rest => (readItems? fuel rest).map fun (items, rest) => (.array items, rest)
      else if c = '\x7b' then
        match skipSpaces rest with
        | '\x7d' :: rest => some (.object [], rest)
        | rest => (readMembers? fuel rest).map fun (members, rest) => (.object members, rest)
      else (readNumeral? (c :: rest)).map fun (n, rest) => (.number n, rest)

/-- Reads the items of an array that is not empty, up to its closing bracket. -/
def readItems? (fuel : Nat) (cs : List Char) : Option (List Json × List Char) :=
  match fuel with
  | 0 => none
  | fuel + 1 =>
    match readValue? fuel cs with
    | none => none
    | some (item, rest) =>
      match skipSpaces rest with
      | ',' :: rest => (readItems? fuel rest).map fun (items, rest) => (item :: items, rest)
      | ']' :: rest => some ([item], rest)
      | _ => none

/-- Reads the members of an object that is not empty, up to its closing brace. -/
def readMembers? (fuel : Nat) (cs : List Char) :
    Option (List (Option String × Json) × List Char) :=
  match fuel with
  | 0 => none
  | fuel + 1 =>
    match skipSpaces cs with
    | '"' :: rest =>
      match readString? rest with
      | none => none
      | some (key, rest) =>
        match skipSpaces rest with
        | ':' :: rest =>
          match readValue? fuel rest with
          | none => none
          | some (value, rest) =>
            match skipSpaces rest with
            | ',' :: rest =>
              (readMembers? fuel rest).map fun (members, rest) => ((key, value) :: members, rest)
            | '\x7d' :: rest => some ([(key, value)], rest)
            | _ => none
        | _ => none
    | _ => none

end

/-- Reads a text that holds one value and nothing else. A value takes at most two steps into
its structure for each of its characters. -/
def parse? (text : String) : Option Json :=
  let cs := text.toList
  match readValue? (2 * cs.length + 2) cs with
  | some (value, rest) => if (skipSpaces rest).isEmpty then some value else none
  | none => none

end MarketLoad.Json
