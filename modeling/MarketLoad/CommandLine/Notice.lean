import MarketLoad.Run.Result
import MarketLoad.Session.Phase

/-! # Notices

What a run tells about its progress, each notice at a level. -/

namespace MarketLoad

/-- How much a notice matters. -/
inductive LogLevel
  | trace
  | debug
  | info
  | warn
  | error
deriving DecidableEq, Repr

namespace LogLevel

/-- The rank of a level; higher ones matter more. -/
def rank : LogLevel → Nat
  | trace => 0
  | debug => 1
  | info => 2
  | warn => 3
  | error => 4

/-- The level of a name in any case; a name of no level stands for `info`. -/
def ofName (name : String) : LogLevel :=
  match String.ofList (name.toList.map Char.toLower) with
  | "trace" => trace
  | "debug" => debug
  | "warn" => warn
  | "error" => error
  | _ => info

def name : LogLevel → String
  | trace => "TRACE"
  | debug => "DEBUG"
  | info => "INFO"
  | warn => "WARN"
  | error => "ERROR"

end LogLevel

structure Notice where
  level : LogLevel
  text : String
deriving DecidableEq, Repr

namespace Notice

/-- The notices that matter at least as much as a level. -/
def atLeast (level : LogLevel) (notices : List Notice) : List Notice :=
  notices.filter fun n => level.rank ≤ n.level.rank

def line (n : Notice) : String := n.level.name ++ " " ++ n.text

/-- The phases of a session that came to an outcome. -/
def phases (o : Outcome) : List Phase :=
  if o.success then
    [.init, .connecting, .connected, .registering,
      if o.registered then .registered else .registerFailed, .trading, .closed]
  else [.init, .connecting, .closed]

/-- A session that comes to an outcome changes only to phases that may follow. -/
theorem canPrecede_of_phases (o : Outcome) :
    ∀ change ∈ (phases o).zip (phases o).tail, change.1.canPrecede change.2 = true := by
  unfold phases
  cases o.success
  · cases o.registered
    all_goals decide
  · cases o.registered
    all_goals decide

/-- The change from one phase to the next. -/
def ofTransition (trader : Trader) (before after : Phase) : Notice :=
  ⟨.debug, trader.name ++ ": " ++ before.name ++ " to " ++ after.name⟩

/-- The changes between some phases. -/
def ofPhases (trader : Trader) : List Phase → List Notice
  | before :: after :: rest => ofTransition trader before after :: ofPhases trader (after :: rest)
  | _ => []

/-- An order cycle. One that a fault broke does not tell how it ended. -/
def ofCycle (trader : Trader) (c : Cycle) : List Notice :=
  let ended := c.fault.isNone
  if c.sent then
    ⟨.trace, trader.name ++ ": order sent"⟩ ::
      (if ended && c.roundTrip.isNone then [⟨.trace, trader.name ++ ": nothing drained"⟩] else [])
  else if ended then [⟨.debug, trader.name ++ ": order cycle skipped"⟩]
  else []

/-- What went wrong, and whether the session carried on. -/
def ofFailure (trader : Trader) (result : Except Fault Outcome) : List Notice :=
  match result with
  | .error fault => [⟨.error, trader.name ++ ": session worker broke: " ++ fault.message⟩]
  | .ok o =>
    match o.failure with
    | none => []
    | some failure =>
      let rest := if failure.isFatal then "" else ", trading anyway"
      [⟨.warn, trader.name ++ ": " ++ failure.message ++ rest⟩]

/-- The end of a session that traded. -/
def ofEnd (trader : Trader) (result : Except Fault Outcome) : List Notice :=
  match result with
  | .error _ => []
  | .ok o => if o.success then [⟨.debug, trader.name ++ ": session finished"⟩] else []

/-- A session of a run, up to its outcome. -/
def ofVisit (v : Visit) : List Notice :=
  let trader := v.entrant.settings.trader
  ⟨.debug, trader.name ++ ": slot acquired"⟩ ::
    (match v.course.result with
      | .ok o => ofPhases trader (phases o)
      | .error _ => []) ++
    ofFailure trader v.course.result ++ v.course.cycles.flatMap (ofCycle trader) ++
    ofEnd trader v.course.result

/-- An outcome that came in. -/
def ofOutcome (o : Outcome) : Notice :=
  if (o.failure.map (·.isFatal)).getD false then ⟨.warn, o.trader.name ++ ": trader failed"⟩
  else ⟨.info, o.trader.name ++ ": trader finished"⟩

/-- A whole run. -/
def ofRun (r : RunResult) : List Notice :=
  ⟨.info, "starting run"⟩ :: r.stints.flatMap (fun s => ofVisit s.job) ++
    r.outcomes.map ofOutcome ++ [⟨.info, "run complete"⟩]

end Notice

end MarketLoad
