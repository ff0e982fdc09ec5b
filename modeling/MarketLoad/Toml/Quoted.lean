import MarketLoad.Text.Digits

/-! # Strings of TOML

Four kinds: basic strings with escapes and literal strings without, each on one line or on
several. The readers start after the opening quotes and return what follows the closing ones. -/

namespace MarketLoad.Toml

open Text

/-- A character that may stand for itself: a tab, or anything that is no control. -/
def isPlain (c : Char) : Bool := c == '\t' || (0x20 ≤ c.toNat && c.toNat != 0x7f)

/-- A blank inside a line. -/
def isSpace (c : Char) : Bool := c == ' ' || c == '\t'

/-- What follows the end of a line. -/
def afterLineEnd? : List Char → Option (List Char)
  | '\n' :: rest => some rest
  | '\r' :: '\n' :: rest => some rest
  | _ => none

/-- The character of a two-character escape. -/
def simpleEscape? (c : Char) : Option Char :=
  if c = 'b' then some '\x08'
  else if c = 'f' then some '\x0c'
  else if c = 'n' then some '\n'
  else if c = 'r' then some '\r'
  else if c = 't' then some '\t'
  else if c = '"' ∨ c = '\\' then some c
  else none

/-- The character of `width` hexadecimal digits. -/
def readCode? (width : Nat) (cs : List Char) : Option (Char × List Char) := do
  if (cs.take width).length = width then
    let n ← readHexFrom? 0 (cs.take width)
    if n < 0xd800 ∨ (0xdfff < n ∧ n ≤ 0x10ffff) then some (Char.ofNat n, cs.drop width) else none
  else none

/-- The character of an escape, after its backslash. -/
def readEscape? : List Char → Option (Char × List Char)
  | [] => none
  | c :: rest =>
    if c = 'u' then readCode? 4 rest
    else if c = 'U' then readCode? 8 rest
    else (simpleEscape? c).map (·, rest)

def readBasic? : (fuel : Nat) → List Char → Option (List Char × List Char)
  | 0, _ | _, [] => none
  | fuel + 1, c :: rest =>
    if c = '"' then some ([], rest)
    else if c = '\\' then do
      let (c, rest) ← readEscape? rest
      let (cs, rest) ← readBasic? fuel rest
      return (c :: cs, rest)
    else if isPlain c then (readBasic? fuel rest).map fun (cs, rest) => (c :: cs, rest)
    else none

/-- Reads a literal string on one line. -/
def readLiteral? : List Char → Option (List Char × List Char)
  | [] => none
  | c :: rest =>
    if c = '\'' then some ([], rest)
    else if isPlain c then (readLiteral? rest).map fun (cs, rest) => (c :: cs, rest)
    else none

/-- The end of a string between triple quotes, at its first quote: three quotes close it, and up
to two before them belong to it. The result has the quotes that belong to the string. -/
def readClosing? (quote : Char) (cs : List Char) : Option (List Char × List Char) :=
  let count := (cs.takeWhile (· == quote)).length
  if 3 ≤ count then
    let extra := min (count - 3) 2
    some (List.replicate extra quote, cs.drop (extra + 3))
  else none

/-- What follows the blanks and line ends after a backslash at the end of a line. -/
def skipLineEnds : (fuel : Nat) → List Char → List Char
  | 0, cs => cs
  | fuel + 1, cs =>
    match afterLineEnd? cs with
    | some rest => skipLineEnds fuel rest
    | none =>
      match cs with
      | c :: rest => if isSpace c then skipLineEnds fuel rest else cs
      | [] => []

/-- Reads a basic string on several lines. -/
def readLongBasic? : (fuel : Nat) → List Char → Option (List Char × List Char)
  | 0, _ | _, [] => none
  | fuel + 1, c :: rest =>
    if c = '"' then
      match readClosing? '"' (c :: rest) with
      | some result => some result
      | none => (readLongBasic? fuel rest).map fun (cs, rest) => (c :: cs, rest)
    else if c = '\\' then
      match afterLineEnd? (rest.dropWhile isSpace) with
      | some rest => readLongBasic? fuel (skipLineEnds rest.length rest)
      | none => do
        let (c, rest) ← readEscape? rest
        let (cs, rest) ← readLongBasic? fuel rest
        return (c :: cs, rest)
    else if isPlain c then (readLongBasic? fuel rest).map fun (cs, rest) => (c :: cs, rest)
    else do
      let rest ← afterLineEnd? (c :: rest)
      (readLongBasic? fuel rest).map fun (cs, rest) => ('\n' :: cs, rest)

/-- Reads a literal string on several lines. -/
def readLongLiteral? : (fuel : Nat) → List Char → Option (List Char × List Char)
  | 0, _ | _, [] => none
  | fuel + 1, c :: rest =>
    if c = '\'' then
      match readClosing? '\'' (c :: rest) with
      | some result => some result
      | none => (readLongLiteral? fuel rest).map fun (cs, rest) => (c :: cs, rest)
    else if isPlain c then (readLongLiteral? fuel rest).map fun (cs, rest) => (c :: cs, rest)
    else do
      let rest ← afterLineEnd? (c :: rest)
      (readLongLiteral? fuel rest).map fun (cs, rest) => ('\n' :: cs, rest)

/-- Reads a string on one line, from its opening quote. -/
def readShortString? : List Char → Option (String × List Char)
  | '"' :: rest => (readBasic? (rest.length + 1) rest).map fun (cs, rest) => (String.ofList cs, rest)
  | '\'' :: rest => (readLiteral? rest).map fun (cs, rest) => (String.ofList cs, rest)
  | _ => none

/-- A text without the line end that may follow opening triple quotes. -/
def dropLineEnd (cs : List Char) : List Char := (afterLineEnd? cs).getD cs

/-- Reads a string of any kind, from its opening quotes. -/
def readString? : List Char → Option (String × List Char)
  | '"' :: '"' :: '"' :: rest =>
    (readLongBasic? (rest.length + 1) (dropLineEnd rest)).map fun (cs, rest) => (String.ofList cs, rest)
  | '\'' :: '\'' :: '\'' :: rest =>
    (readLongLiteral? (rest.length + 1) (dropLineEnd rest)).map fun (cs, rest) =>
      (String.ofList cs, rest)
  | cs => readShortString? cs

end MarketLoad.Toml
