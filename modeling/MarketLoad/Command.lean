import MarketLoad.Order
import MarketLoad.Text.Utf8

/-! # Commands

What a trader sends: a registration or an order, each one line of fields divided by `:`. The
server answers in free text, in which only the mark of an accepted registration counts
(`acknowledgesRegistration`). -/

namespace MarketLoad

inductive Command
  | register (trader : Trader)
  | order (trader : Trader) (order : Order)
deriving DecidableEq, Repr

namespace Command

/-- The fields of a command, in the order the server expects. -/
def fields : Command → List String
  | register trader => ["REGISTER", trader.name]
  | order trader o =>
    ["ORDER", trader.name, o.symbol.ticker, o.side.text, o.kind.text, o.price.text,
      o.quantity.text]

/-- The line of a command, with its newline. -/
def line (c : Command) : String := ":".intercalate c.fields ++ "\n"

def bytes (c : Command) : Bytes := Utf8.encode c.line

end Command

/-- Whether `word` stands somewhere in a list of characters. -/
def occursIn (word : List Char) : List Char → Bool
  | [] => word.isEmpty
  | c :: cs => word.isPrefixOf (c :: cs) || occursIn word cs

/-- The mark of an accepted registration. -/
def registrationMark : String := "REGISTERED"

/-- Whether a reply, read as text as far as it is text, holds the mark of an accepted
registration. -/
def acknowledgesRegistration (reply : Bytes) : Bool :=
  occursIn registrationMark.toList (Utf8.lossyChars reply)

end MarketLoad
