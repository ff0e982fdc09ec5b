/-! # Identities on the wire

Traders and symbols stand verbatim in commands whose fields are divided by `:` and which end
at a newline. A text is *wire safe* if it is not empty and holds neither of these nor a
carriage return; identities made from texts are wire safe, identities read from records may
not be. -/

namespace MarketLoad

/-- A character that would break a command apart. -/
def breaksCommand (c : Char) : Bool := c == ':' || c == '\r' || c == '\n'

/-- Whether a text can stand as one field of a command. -/
def isWireSafe (text : String) : Bool :=
  !text.toList.isEmpty && text.toList.all (!breaksCommand ·)

/-- A simulated trader. -/
structure Trader where
  name : String
deriving DecidableEq, Repr

/-- A tradable instrument. -/
structure Symbol where
  ticker : String
deriving DecidableEq, Repr

/-- The trader of this name, if commands can carry it. -/
def Trader.ofName? (name : String) : Option Trader :=
  if isWireSafe name then some ⟨name⟩ else none

/-- The symbol of this ticker, if commands can carry it. -/
def Symbol.ofTicker? (ticker : String) : Option Symbol :=
  if isWireSafe ticker then some ⟨ticker⟩ else none

end MarketLoad
