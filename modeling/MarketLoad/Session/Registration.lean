import MarketLoad.Command
import MarketLoad.Text.Blank
import MarketLoad.Text.Lines
import MarketLoad.Venue.Link

/-! # Registration

A trader registers by one command and reads until it is acknowledged. Reading stops without
success at the end of a line, at a full buffer, or when nothing more comes. -/

namespace MarketLoad

open Venue

namespace Registration

/-- The number of bytes after which an acknowledgement is given up. -/
def ackLimit : Nat := 1024

/-- The failure for a reply that does not acknowledge. -/
def unrecognized (received : Bytes) : RegistrationFailure :=
  .unrecognized (Text.trimEnd (Utf8.lossy received))

/-- The failure for a reply that stopped: `none` came at all, or what came does not
acknowledge. -/
def stopped (received : Bytes) (none : RegistrationFailure) : RegistrationFailure :=
  if received.isEmpty then none else unrecognized received

/-- Reads on after `received` until the registration is acknowledged or given up. -/
def await (deadline : Nat) (received : Bytes) (l : Link) : Except RegistrationFailure Unit × Link :=
  match l.read deadline with
  | (.ended, l) => (.error (stopped received .closed), l)
  | (.timedOut, l) => (.error (stopped received .timeout), l)
  | (.failed reason, l) => (.error (.io reason), l)
  | (.data first rest, l) =>
    let received' := received ++ first :: rest
    if acknowledgesRegistration received' then (.ok (), l)
    else if _h : received'.contains newline ∨ ackLimit ≤ received'.length then
      (.error (unrecognized received'), l)
    else await deadline received' l
termination_by ackLimit - received.length
decreasing_by
  simp only [not_or, Nat.not_le, List.length_append, List.length_cons, received'] at _h ⊢
  omega

/-- What a read that brings bytes leads to. -/
theorem await_of_data {deadline : Nat} {received rest : Bytes} {first : UInt8} {l l' : Link}
    (h : l.read deadline = (.data first rest, l')) :
    await deadline received l =
      if acknowledgesRegistration (received ++ first :: rest) then (.ok (), l')
      else if (received ++ first :: rest).contains newline ∨
          ackLimit ≤ (received ++ first :: rest).length then
        (.error (unrecognized (received ++ first :: rest)), l')
      else await deadline (received ++ first :: rest) l' := by
  rw [await, h]
  rfl

/-- Sends the registration and waits for its acknowledgement. -/
def perform (trader : Trader) (deadline : Nat) (l : Link) :
    Except RegistrationFailure Unit × Link :=
  match l.write deadline (Command.register trader).bytes with
  | (.done, l) => await deadline [] l
  | (.failed reason, l) => (.error (.io reason), l)
  | (.timedOut, l) => (.error .timeout, l)

end Registration

end MarketLoad
