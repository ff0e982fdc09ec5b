/-! # What can go wrong in a session

A session that cannot connect, or whose worker breaks down, has failed; every other failure
is noted and the session carries on. -/

namespace MarketLoad

/-- Why a registration was not acknowledged. -/
inductive RegistrationFailure
  /-- Nothing came before the deadline. -/
  | timeout
  /-- Something came that does not acknowledge. -/
  | unrecognized (response : String)
  /-- The server ended the connection first. -/
  | closed
  /-- The connection broke. -/
  | io (reason : String)
deriving DecidableEq, Repr

namespace RegistrationFailure

def message : RegistrationFailure → String
  | timeout => "No acknowledgement before deadline"
  | unrecognized response => "Unrecognized acknowledgement: " ++ response
  | closed => "Connection closed before acknowledgement"
  | io reason => "I/O error: " ++ reason

end RegistrationFailure

/-- What went wrong in a session. -/
inductive SessionFailure
  | connect (endpoint reason : String)
  | registration (cause : RegistrationFailure)
  | send (reason : String)
  | drain (reason : String)
  | worker (reason : String)
deriving DecidableEq, Repr

namespace SessionFailure

def message : SessionFailure → String
  | connect endpoint reason => "Connect to " ++ endpoint ++ " failed: " ++ reason
  | registration cause => "Registration error: " ++ cause.message
  | send reason => "Send failed: " ++ reason
  | drain reason => "Drain failed: " ++ reason
  | worker reason => "Worker fault: " ++ reason

/-- Whether a session with this failure never traded. -/
def isFatal : SessionFailure → Bool
  | connect .. | worker .. => true
  | registration .. | send .. | drain .. => false

end SessionFailure

end MarketLoad
