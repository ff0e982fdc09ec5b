import MarketLoad.Toml.Quoted
import MarketLoad.Toml.Scalar
import MarketLoad.Toml.Tables

/-! # Reading TOML

`Toml.parse?` reads a file: lines that are empty, hold a comment, a header or a named value.
Arrays may run over several lines and hold comments; tables in braces stand on one line. -/

namespace MarketLoad.Toml

/-- Values may be nested, and names divided, less often than this. -/
def depthLimit : Nat := 80

/-- What follows blanks on the same line. -/
def skipSpaces (cs : List Char) : List Char := cs.dropWhile isSpace

/-- What follows a comment, if there is one. -/
def skipComment : List Char → List Char
  | '#' :: rest => rest.dropWhile isPlain
  | cs => cs

/-- What follows the rest of a line that holds nothing more than a comment. -/
def afterLine? (cs : List Char) : Option (List Char) :=
  match skipComment (skipSpaces cs) with
  | [] => some []
  | cs => afterLineEnd? cs

def skipLines : (fuel : Nat) → List Char → List Char
  | 0, cs => cs
  | fuel + 1, cs =>
    match skipSpaces cs with
    | '#' :: rest => skipLines fuel (rest.dropWhile isPlain)
    | cs =>
      match afterLineEnd? cs with
      | some rest => skipLines fuel rest
      | none => cs

/-! ## Names -/

/-- A character of a name without quotes. -/
def isBare (c : Char) : Bool := c.isAlphanum || c == '-' || c == '_'

/-- Reads one part of a name. -/
def readPart? (cs : List Char) : Option (String × List Char) :=
  match cs with
  | '"' :: _ | '\'' :: _ => readShortString? cs
  | cs =>
    match cs.span isBare with
    | ([], _) => none
    | (part, rest) => some (String.ofList part, rest)

/-- Reads a name of parts with points between them, blanks around each part. -/
def readParts? : (fuel : Nat) → List Char → Option (List String × List Char)
  | 0, _ => none
  | fuel + 1, cs => do
    let (part, rest) ← readPart? (skipSpaces cs)
    match skipSpaces rest with
    | '.' :: rest =>
      let (parts, rest) ← readParts? fuel rest
      return (part :: parts, rest)
    | rest => return ([part], rest)

/-- Reads a name, which must not have too many parts. -/
def readName? (cs : List Char) : Option (List String × List Char) := readParts? (depthLimit - 1) cs

/-! ## Values -/

mutual

/-- Reads a value nested in `depth` others, with at most `fuel` steps into its structure. -/
def readValue? (depth fuel : Nat) (cs : List Char) : Option (Toml × List Char) :=
  match fuel with
  | 0 => none
  | fuel + 1 =>
    match cs with
    | '"' :: _ | '\'' :: _ => (readString? cs).map fun (s, rest) => (.string s, rest)
    | '[' :: rest =>
      if depthLimit ≤ depth + 1 then none
      else (readItems? (depth + 1) fuel rest).map fun (items, rest) => (.array items, rest)
    | '\x7b' :: rest =>
      if depthLimit ≤ depth + 1 then none
      else
        match skipSpaces rest with
        | '\x7d' :: rest => some (.table [], rest)
        | rest =>
          (readMembers? (depth + 1) fuel [] rest).map fun (members, rest) =>
            (.table (membersValues members), rest)
    | cs => readScalar? cs

/-- Reads the items of an array up to its closing bracket; a comma may follow the last one. -/
def readItems? (depth fuel : Nat) (cs : List Char) : Option (List Toml × List Char) :=
  match fuel with
  | 0 => none
  | fuel + 1 =>
    match skipLines cs.length cs with
    | ']' :: rest => some ([], rest)
    | cs =>
      match readValue? depth fuel cs with
      | none => none
      | some (item, rest) =>
        match skipLines rest.length rest with
        | ',' :: rest =>
          (readItems? depth fuel rest).map fun (items, rest) => (item :: items, rest)
        | ']' :: rest => some ([item], rest)
        | _ => none

/-- Reads the members of a table in braces up to its closing brace, adding them to those that
stand before. -/
def readMembers? (depth fuel : Nat) (members : Members) (cs : List Char) :
    Option (Members × List Char) :=
  match fuel with
  | 0 => none
  | fuel + 1 =>
    match readName? cs with
    | some (parts, '=' :: rest) =>
      match readValue? depth fuel (skipSpaces rest) with
      | none => none
      | some (v, rest) =>
        match members.insert? parts.dropLast (parts.getLast?.getD "") v with
        | none => none
        | some members =>
          match skipSpaces rest with
          | ',' :: rest => readMembers? depth fuel members rest
          | '\x7d' :: rest => some (members, rest)
          | _ => none
    | _ => none

end

/-- Enough steps for any value in a text: at most two for each character. -/
def stepsFor (cs : List Char) : Nat := 2 * cs.length + 2

/-! ## Lines -/

/-- Reads a named value and the rest of its line into a draft. -/
def readNamed? (d : Draft) (cs : List Char) : Option (Draft × List Char) :=
  match readName? cs with
  | some (parts, '=' :: rest) => do
    let (v, rest) ← readValue? 0 (stepsFor rest) (skipSpaces rest)
    let rest ← afterLine? rest
    let d ← d.insert? parts.dropLast (parts.getLast?.getD "") v
    return (d, rest)
  | _ => none

/-- Reads a header and the rest of its line into a draft. -/
def readHeader? (d : Draft) : List Char → Option (Draft × List Char)
  | '[' :: '[' :: rest =>
    match readName? rest with
    | some (path, ']' :: ']' :: rest) => do
      let rest ← afterLine? rest
      return (← d.openItem? path, rest)
    | _ => none
  | '[' :: rest =>
    match readName? rest with
    | some (path, ']' :: rest) => do
      let rest ← afterLine? rest
      return (← d.openTable? path, rest)
    | _ => none
  | _ => none

/-- Reads lines to the end of the file. -/
def readLines? (d : Draft) : (fuel : Nat) → List Char → Option Draft
  | 0, _ => none
  | fuel + 1, cs =>
    match skipSpaces cs with
    | [] => some d
    | '[' :: rest => do
      let (d, rest) ← readHeader? d ('[' :: rest)
      readLines? d fuel rest
    | cs =>
      if cs.head? = some '#' ∨ cs.head? = some '\n' ∨ cs.head? = some '\r' then do
        readLines? d fuel (← afterLine? cs)
      else do
        let (d, rest) ← readNamed? d cs
        readLines? d fuel rest

/-- A text without the mark of its byte order. -/
def dropMark : List Char → List Char
  | '\uFEFF' :: rest => rest
  | cs => cs

/-- Reads the text of a file. Each line takes at least one character. -/
def parse? (text : String) : Option Toml :=
  let cs := dropMark text.toList
  (readLines? .empty (cs.length + 1) cs).bind (·.toValue?)

end MarketLoad.Toml
