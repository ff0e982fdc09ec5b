import MarketLoad.Json.Value
import MarketLoad.Text.Digits

/-! # Writing JSON

`Json.compact` writes a value without any blank, `Json.pretty` on lines indented by two
spaces. Strings escape quotes, backslashes and controls, and nothing else. -/

namespace MarketLoad.Json

open Text

/-- One character of a string. -/
def escapeChar (c : Char) : List Char :=
  if c = '"' then ['\\', '"']
  else if c = '\\' then ['\\', '\\']
  else if c.toNat = 0x08 then ['\\', 'b']
  else if c = '\t' then ['\\', 't']
  else if c = '\n' then ['\\', 'n']
  else if c.toNat = 0x0c then ['\\', 'f']
  else if c = '\r' then ['\\', 'r']
  else if c.toNat < 0x20 then ['\\', 'u'] ++ paddedHex 4 c.toNat
  else [c]

/-- A string with its quotes. A string without a text is written as an empty one. -/
def stringChars (s : Option String) : List Char :=
  '"' :: ((s.getD "").toList.flatMap escapeChar ++ ['"'])

def numeralChars (n : Numeral) : List Char :=
  let whole := if n.negative then '-' :: n.whole else n.whole
  let fraction := match n.fraction with
    | none => []
    | some ds => '.' :: ds
  let exponent := match n.exponent with
    | none => []
    | some (true, ds) => 'e' :: '-' :: ds
    | some (false, ds) => 'e' :: '+' :: ds
  whole ++ fraction ++ exponent

mutual

/-- A value without blanks. -/
def chars : Json → List Char
  | .null => "null".toList
  | .bool true => "true".toList
  | .bool false => "false".toList
  | .number n => numeralChars n
  | .string s => stringChars s
  | .array [] => ['[', ']']
  | .array (item :: items) => '[' :: (chars item ++ itemsChars items)
  | .object [] => ['\x7b', '\x7d']
  | .object ((key, value) :: members) =>
    '\x7b' :: (stringChars key ++ ':' :: (chars value ++ membersChars members))

/-- The items after the first, and the closing bracket. -/
def itemsChars : List Json → List Char
  | [] => [']']
  | item :: items => ',' :: (chars item ++ itemsChars items)

/-- The members after the first, and the closing brace. -/
def membersChars : List (Option String × Json) → List Char
  | [] => ['\x7d']
  | (key, value) :: members =>
    ',' :: (stringChars key ++ ':' :: (chars value ++ membersChars members))

end

/-- The value as text without blanks. -/
def compact (j : Json) : String := String.ofList (chars j)

/-- A new line at a depth of nesting. -/
def breakLine (depth : Nat) : List Char := '\n' :: List.replicate (2 * depth) ' '

mutual

/-- A value on indented lines, at a depth of nesting. -/
def prettyChars (depth : Nat) : Json → List Char
  | .null => "null".toList
  | .bool true => "true".toList
  | .bool false => "false".toList
  | .number n => numeralChars n
  | .string s => stringChars s
  | .array [] => ['[', ']']
  | .array (item :: items) =>
    '[' :: (breakLine (depth + 1) ++ prettyChars (depth + 1) item ++ prettyItems depth items)
  | .object [] => ['\x7b', '\x7d']
  | .object ((key, value) :: members) =>
    '\x7b' :: (breakLine (depth + 1) ++ stringChars key ++ ':' :: ' ' ::
      (prettyChars (depth + 1) value ++ prettyMembers depth members))

/-- The items after the first, and the closing bracket on its own line. -/
def prettyItems (depth : Nat) : List Json → List Char
  | [] => breakLine depth ++ [']']
  | item :: items =>
    ',' :: (breakLine (depth + 1) ++ prettyChars (depth + 1) item ++ prettyItems depth items)

/-- The members after the first, and the closing brace on its own line. -/
def prettyMembers (depth : Nat) : List (Option String × Json) → List Char
  | [] => breakLine depth ++ ['\x7d']
  | (key, value) :: members =>
    ',' :: (breakLine (depth + 1) ++ stringChars key ++ ':' :: ' ' ::
      (prettyChars (depth + 1) value ++ prettyMembers depth members))

end

/-- The value as text on indented lines. -/
def pretty (j : Json) : String := String.ofList (prettyChars 0 j)

end MarketLoad.Json
