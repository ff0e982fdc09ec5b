/-! # JSON values

Values keep what their texts say: numbers by their digits, objects as lists of members in
order and with repetitions. A string with the escape of half a character (an unpaired
surrogate) denotes no text and is held as `none`; it does no harm where nobody reads it. -/

namespace MarketLoad

/-- A number by its digits. -/
structure Numeral where
  negative : Bool
  whole : List Char
  /-- The digits after the point, if there is one. -/
  fraction : Option (List Char)
  /-- The exponent, if there is one: whether it is negative, and its digits. -/
  exponent : Option (Bool × List Char)
deriving DecidableEq, Repr

inductive Json
  | null
  | bool (value : Bool)
  | number (value : Numeral)
  | string (text : Option String)
  | array (items : List Json)
  | object (members : List (Option String × Json))

namespace Json

abbrev text (s : String) : Json := .string (some s)

def record (members : List (String × Json)) : Json :=
  .object (members.map fun (key, value) => (some key, value))

end Json

end MarketLoad
