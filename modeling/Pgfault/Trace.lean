import Pgfault.Scenario

namespace Pgfault

/-!
# Traces and their replay

The proxy writes one record per line.  `replay` reads the records back and
turns every fault into a scenario that waits for the recorded coordinates.
Records are modelled behind their JSON encoding, and two scenarios with the
same JSON text are the same scenario.
-/

/-- One line of a trace. -/
inductive Record where
  | semantic (coordinate : Event)
  | fault (coordinate : Event) (scenario : Scenario)
  | lifecycle (connectionId : Nat) (event : String) (detail : String)
  deriving Repr, DecidableEq

namespace Record

/-- Whether a record reports a fired fault. -/
def isFault : Record → Bool
  | .fault _ _ => true
  | _ => false

end Record

namespace Trace

/-- The scenario that repeats one recorded fault. -/
def reschedule (e : Event) (scenario : Scenario) : Scenario :=
  { scenario with
    selector :=
      { scenario.selector with
        applicationName := e.startup.applicationName
        user := e.startup.user
        database := e.startup.database
        transaction := some e.transactionEpoch
        queryCycle := some e.queryCycle
        statement := some e.statementIndex
        sqlFingerprint := some e.sqlFingerprint }
    when :=
      { scenario.when with
        event := e.event
        occurrence := some 1
        row := e.rowIndex } }

/-- The loop of `replay` over the remaining records. -/
def replayLoop
    (parseDuration : String → Except String Nat) :
    List Record → List Scenario → Except String (List Scenario)
  | [], schedules => .ok schedules
  | .fault e scenario :: rest, schedules => do
      let scheduled := reschedule e scenario
      scheduled.validate parseDuration
      replayLoop parseDuration rest
        (if scheduled ∈ schedules then schedules
        else schedules ++ [scheduled])
  | _ :: rest, schedules => replayLoop parseDuration rest schedules

/-- The scenarios that repeat the faults of a trace. -/
def replay
    (parseDuration : String → Except String Nat)
    (records : List Record) : Except String (List Scenario) := do
  let schedules ← replayLoop parseDuration records []
  if schedules.isEmpty then
    .error "trace contains no fired faults"
  else
    .ok schedules

end Trace

end Pgfault
