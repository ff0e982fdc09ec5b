/-! # Phases of a session -/

namespace MarketLoad

/-- Where a session stands. -/
inductive Phase
  | init
  | connecting
  | connected
  | registering
  | registered
  | registerFailed
  | trading
  | closed
deriving DecidableEq, Repr

namespace Phase

/-- Whether a phase may follow another. -/
def canPrecede : Phase → Phase → Bool
  | init, connecting => true
  | connecting, connected | connecting, closed => true
  | connected, registering => true
  | registering, registered | registering, registerFailed => true
  | registered, trading | registerFailed, trading => true
  | trading, closed => true
  | _, _ => false

def names : List (String × Phase) :=
  [("INIT", init), ("CONNECTING", connecting), ("CONNECTED", connected),
    ("REGISTERING", registering), ("REGISTERED", registered),
    ("REGISTER_FAILED", registerFailed), ("TRADING", trading), ("CLOSED", closed)]

def name : Phase → String
  | init => "INIT"
  | connecting => "CONNECTING"
  | connected => "CONNECTED"
  | registering => "REGISTERING"
  | registered => "REGISTERED"
  | registerFailed => "REGISTER_FAILED"
  | trading => "TRADING"
  | closed => "CLOSED"

end Phase

end MarketLoad
