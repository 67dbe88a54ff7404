import Pgfault.Events

namespace Pgfault

/-!
# Scenarios and their matchers

A scenario waits for one event and acts when it occurs.  A `Matcher` owns the
scenario of one connection, counts the events that satisfy every filter, and
fires once.

Durations are parsed by a third-party crate.  `parseDuration` stands for it:
the nanoseconds a text denotes, or the text of the crate's error.
-/

/-- Which events of which connection a scenario looks at. -/
structure Selector where
  applicationName : Option String := none
  user : Option String := none
  database : Option String := none
  connectionOrdinal : Option Nat := none
  transaction : Option Nat := none
  queryCycle : Option Nat := none
  statement : Option Nat := none
  sqlFingerprint : Option String := none
  deriving Repr, DecidableEq

/-- The event a scenario waits for, and its filters. -/
structure When where
  event : String
  occurrence : Option Nat := none
  statementClass : List StatementClass := []
  row : Option Nat := none
  deriving Repr, DecidableEq

/-- Drop the frame that delivers the event. -/
structure Suppress where
  current : Bool
  deriving Repr, DecidableEq

/-- The side of the proxy a fault severs. -/
inductive Side where
  | frontend
  | upstream
  deriving Repr, DecidableEq

/-- How a socket is severed. -/
inductive Mode where
  | close
  | reset
  deriving Repr, DecidableEq

/-- Sever one side. -/
structure Disconnect where
  side : Side
  mode : Mode
  deriving Repr, DecidableEq

/-- The direction a delayed frame travels in. -/
inductive Direction where
  | upstream
  | downstream
  deriving Repr, DecidableEq

/-- Sleep before the frame goes on. -/
structure Delay where
  direction : Direction
  duration : String
  deriving Repr, DecidableEq

/-- Cut a result set after some rows. -/
structure Truncate where
  afterRows : Nat
  deriving Repr, DecidableEq

/-- What a scenario does when it fires. -/
structure Action where
  suppress : Option Suppress := none
  disconnect : Option Disconnect := none
  delay : Option Delay := none
  truncateResult : Option Truncate := none
  deriving Repr, DecidableEq

/-- A fault scenario. -/
structure Scenario where
  version : Nat
  name : String
  selector : Selector := {}
  when : When
  action : Action
  deriving Repr, DecidableEq

/-- The Unicode `White_Space` characters, which `str::trim` removes. -/
def isWhiteSpace (char : Char) : Bool :=
  (9 ≤ char.toNat && char.toNat ≤ 13) || char.toNat == 32 ||
    char.toNat == 0x85 || char.toNat == 0xA0 || char.toNat == 0x1680 ||
    (0x2000 ≤ char.toNat && char.toNat ≤ 0x200A) ||
    char.toNat == 0x2028 || char.toNat == 0x2029 || char.toNat == 0x202F ||
    char.toNat == 0x205F || char.toNat == 0x3000

/-- The events `validate` takes to travel upstream. -/
def upstreamEvents : List String :=
  ["query.received",
    "query.forwarded",
    "statement.execution_started",
    "transaction.begin.requested",
    "transaction.commit.requested",
    "transaction.rollback.requested",
    "frontend.execute",
    "frontend.sync"]

namespace Scenario

/-- The delay part of `validate`. -/
def validateDelay
    (parseDuration : String → Except String Nat)
    (s : Scenario)
    (delay : Delay) : Except String Unit :=
  match parseDuration delay.duration with
  | .error _ => .error "invalid delay duration"
  | .ok duration =>
      if 86400 * 10 ^ 9 < duration then
        .error "delay exceeds 24 hours"
      else if decide (s.when.event ∈ upstreamEvents) ≠
          decide (delay.direction = .upstream) then
        .error "delay direction must match the event direction"
      else
        .ok ()

/-- Reject a scenario that cannot mean what it says. -/
def validate
    (parseDuration : String → Except String Nat)
    (s : Scenario) : Except String Unit := do
  if s.version ≠ 1 then
    .error ("unsupported scenario version " ++ toString s.version)
  if s.name.toList.all isWhiteSpace then
    .error "scenario name is empty"
  if s.when.event ∉ EVENTS then
    .error ("unknown semantic event: " ++ s.when.event)
  if s.when.occurrence = some 0 ∨ s.when.row = some 0 then
    .error "occurrence and row are one-based"
  if s.selector.connectionOrdinal = some 0 then
    .error "connection_ordinal is one-based"
  match s.action.delay with
  | some delay => s.validateDelay parseDuration delay
  | none => .ok ()
  if s.action.suppress.isNone ∧ s.action.disconnect.isNone ∧
      s.action.delay.isNone ∧ s.action.truncateResult.isNone then
    .error "scenario has no action"
  if s.action.truncateResult.isSome ∧ s.when.event ≠ "result.started" then
    .error "truncate_result must target result.started"

/-- Whether an event satisfies every selector and filter. -/
def selects (s : Scenario) (e : Event) : Bool :=
  s.selector.applicationName.all (fun text =>
      e.startup.applicationName == some text) &&
    s.selector.user.all (fun text => e.startup.user == some text) &&
    s.selector.database.all (fun text => e.startup.database == some text) &&
    s.selector.connectionOrdinal.all (e.connectionId == ·) &&
    s.selector.transaction.all (e.transactionEpoch == ·) &&
    s.selector.queryCycle.all (e.queryCycle == ·) &&
    s.selector.statement.all (e.statementIndex == ·) &&
    s.selector.sqlFingerprint.all (e.sqlFingerprint == ·) &&
    (s.when.statementClass.isEmpty ||
      s.when.statementClass.contains e.statementClass) &&
    s.when.row.all (fun row => e.rowIndex == some row)

end Scenario

/-- The matcher of one scenario on one connection. -/
structure Matcher where
  scenario : Scenario
  seen : Nat
  fired : Bool
  deriving Repr, DecidableEq

namespace Matcher

/-- A matcher that has seen nothing. -/
def new (scenario : Scenario) : Matcher where
  scenario := scenario
  seen := 0
  fired := false

/-- Whether `observe` counts an event. -/
def counts (m : Matcher) (e : Event) : Bool :=
  e.semanticReliable && !m.fired && e.event == m.scenario.when.event &&
    m.scenario.selects e

/-- Look at one event; the answer is whether the matcher fires. -/
def observe (m : Matcher) (e : Event) : Bool × Matcher :=
  if m.counts e then
    if m.seen + 1 = m.scenario.when.occurrence.getD 1 then
      (true, { m with seen := m.seen + 1, fired := true })
    else
      (false, { m with seen := m.seen + 1 })
  else
    (false, m)

/-- Whether the matcher may still fire at a boundary. -/
def needsGate (m : Matcher) (boundary : String) : Bool :=
  !m.fired && m.scenario.when.event == boundary

/-- Only a counted event makes a matcher fire, and it is then marked. -/
theorem observe_fires
    {m : Matcher}
    {e : Event}
    (fires : (m.observe e).1 = true) :
    m.fired = false ∧ e.event = m.scenario.when.event ∧
      (m.observe e).2.fired = true := by
  unfold observe at fires ⊢
  by_cases counted : m.counts e
  · have parts := counted
    simp only [counts, Bool.and_eq_true, beq_iff_eq, Bool.not_eq_true'] at parts
    by_cases reached : m.seen + 1 = m.scenario.when.occurrence.getD 1
    · simp [counted, reached, parts]
    · simp [counted, reached] at fires
  · simp [counted] at fires

/-- Looking at an event never changes the scenario. -/
@[simp] theorem observe_scenario
    (m : Matcher)
    (e : Event) :
    (m.observe e).2.scenario = m.scenario := by
  unfold observe
  split
  · split <;> rfl
  · rfl

/-- A fired matcher stays as it is. -/
theorem observe_of_fired
    {m : Matcher}
    (e : Event)
    (fired : m.fired = true) :
    m.observe e = (false, m) := by
  simp [observe, counts, fired]

/-- A matcher that does not fire keeps its mark. -/
theorem observe_fired_of_not
    {m : Matcher}
    {e : Event}
    (silent : (m.observe e).1 = false) :
    (m.observe e).2.fired = m.fired := by
  unfold observe at silent ⊢
  by_cases counted : m.counts e
  · by_cases reached : m.seen + 1 = m.scenario.when.occurrence.getD 1
    · simp [counted, reached] at silent
    · simp [counted, reached]
  · simp [counted]

end Matcher

end Pgfault
