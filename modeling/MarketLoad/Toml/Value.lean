import MarketLoad.Binary64.Text

/-! # TOML values

A value as a settings file spells it out. Tables keep their members in the order in which they
were first written; no name comes twice. Dates are checked when they are read, and nothing else
is kept of them. -/

namespace MarketLoad

inductive Toml
  | string (text : String)
  | integer (value : Int)
  | float (value : Binary64)
  | boolean (value : Bool)
  | date
  | array (items : List Toml)
  | table (members : List (String × Toml))

end MarketLoad
