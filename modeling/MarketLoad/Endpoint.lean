import MarketLoad.Text.Digits

/-! # Server addresses -/

namespace MarketLoad

/-- The address of a market server. -/
structure Endpoint where
  host : String
  port : UInt16
deriving DecidableEq, Repr

/-- The address in one text. -/
def Endpoint.text (e : Endpoint) : String :=
  e.host ++ ":" ++ String.ofList (Text.digits e.port.toNat)

end MarketLoad
