import Pgfault.ConnectionState
import Pgfault.Machine
import Pgfault.Trace

namespace Pgfault

/-!
# The relay loop

One `Relay` is the loop of `connection` for one client: the observer, the
matchers, the frames held behind a gated completion, and everything written so
far.  An `Input` is what one branch of the `select!` reads.  A relay with an
`exit` has left the loop, and further inputs do not change it, so a loop point
is a relay without one.

Frames on their way to the client carry the number of server frames read before
them.  The proxy has no such number: it tells apart frames with equal bytes, so
that "this frame was written" has a meaning.  A step is a turn whose operations all
succeed; `Relay.attempt` breaks one off where an operation fails.
-/

/-- A server frame with its position in the stream of server frames. -/
structure Delivery where
  index : Nat
  frame : Frame
  deriving DecidableEq

/-- What `apply` decides about the frame that raised the events. -/
structure Disposition where
  suppress : Bool := false
  disconnect : Bool := false
  deriving Repr, DecidableEq

/-- How `connection` ends. -/
inductive Exit where
  | ok
  | error (message : String)
  deriving Repr, DecidableEq

/-- The variables `apply` works on. -/
structure Applied where
  disposition : Disposition := {}
  truncate : Option Nat
  trace : List Record
  sockets : List (Side × Mode)
  error : Option String := none

namespace Applied

/-- The actions of one fired scenario, behind its delay. -/
def act (a : Applied) (action : Action) : Applied where
  disposition :=
    { suppress :=
        a.disposition.suppress || action.suppress.any Suppress.current
      disconnect := a.disposition.disconnect || action.disconnect.isSome }
  truncate :=
    match action.truncateResult with
    | some truncate => some truncate.afterRows
    | none => a.truncate
  trace := a.trace
  sockets :=
    a.sockets ++ (action.disconnect.map fun d => (d.side, d.mode)).toList
  error := a.error

/-- Record a fired scenario and act on it; a bad delay text ends `apply`. -/
def fire
    (parseDuration : String → Except String Nat)
    (a : Applied)
    (e : Event)
    (scenario : Scenario) : Applied :=
  let recorded := { a with trace := a.trace ++ [Record.fault e scenario] }
  match scenario.action.delay with
  | some delay =>
      match parseDuration delay.duration with
      | .ok _ => recorded.act scenario.action
      | .error message => { recorded with error := some message }
  | none => recorded.act scenario.action

end Applied

/-- The inner loop of `apply`: show one event to every matcher. -/
def applyMatchers
    (parseDuration : String → Except String Nat)
    (e : Event) :
    List Matcher → Applied → List Matcher × Applied
  | [], a => ([], a)
  | m :: rest, a =>
      let observed := m.observe e
      let next :=
        if observed.1 then a.fire parseDuration e m.scenario else a
      if next.error.isSome then
        (observed.2 :: rest, next)
      else
        let later := applyMatchers parseDuration e rest next
        (observed.2 :: later.1, later.2)

/-- The outer loop of `apply`: trace every event and show it around. -/
def applyEvents
    (parseDuration : String → Except String Nat) :
    List Event → List Matcher → Applied → List Matcher × Applied
  | [], matchers, a => (matchers, a)
  | e :: rest, matchers, a =>
      let shown := applyMatchers parseDuration e matchers
        { a with trace := a.trace ++ [.semantic e] }
      if shown.2.error.isSome then
        shown
      else
        applyEvents parseDuration rest shown.1 shown.2

/-- The loop state of one connection. -/
structure Relay where
  state : ConnectionState
  matchers : List Matcher
  held : List Delivery
  heldSize : Nat
  truncate : Option Nat
  toServer : List Frame
  toClient : List Delivery
  received : Nat
  trace : List Record
  sockets : List (Side × Mode)
  exit : Option Exit

/-- What a frame reader returns. -/
inductive Read where
  | frame (f : Frame)
  | eof
  | error (message : String)
  deriving DecidableEq

/-- What one turn of the loop reads, and from which side. -/
inductive Input where
  | client (read : Read)
  | server (read : Read)
  deriving DecidableEq

namespace Relay

/-- The largest number of bytes the completion gate holds. -/
def gateLimit : Nat :=
  1024 * 1024

/-- The loop state before the first turn. -/
def start
    (id : Nat)
    (startup : StartupMetadata)
    (scenarios : List Scenario) : Relay where
  state := ConnectionState.new id startup
  matchers := scenarios.map Matcher.new
  held := []
  heldSize := 0
  truncate := none
  toServer := []
  toClient := []
  received := 0
  trace := [.lifecycle id "startup" ""]
  sockets := []
  exit := none

/-- `return Ok(())`. -/
def finish (r : Relay) : Relay :=
  { r with exit := some .ok }

/-- The variables `apply` borrows from the loop. -/
def borrow (r : Relay) : Applied where
  truncate := r.truncate
  trace := r.trace
  sockets := r.sockets

section

variable (sha256 : Bytes → String) (parseDuration : String → Except String Nat)

/-- Show events to the matchers; an error leaves the loop. -/
def apply (r : Relay) (events : List Event) : Relay × Disposition :=
  let applied := applyEvents parseDuration events r.matchers r.borrow
  ({ r with
      matchers := applied.1
      truncate := applied.2.truncate
      trace := applied.2.trace
      sockets := applied.2.sockets
      exit := applied.2.error.map Exit.error },
    applied.2.disposition)

/-- Forward a client frame and report a forwarded statement. -/
def forward (r : Relay) (f : Frame) : Relay :=
  let sent := { r with toServer := r.toServer ++ [f] }
  if f.frontendTag = .query ∨ f.frontendTag = .execute then
    let raised := sent.state.forwarded
    let applied := { sent with state := raised.2 }.apply parseDuration
      [raised.1]
    if applied.1.exit.isNone ∧ applied.2.disconnect then
      applied.1.finish
    else
      applied.1
  else
    sent

/-- The client branch of the loop, on a complete frame. -/
def clientFrame (r : Relay) (f : Frame) : Relay :=
  let observed := r.state.frontend sha256 f
  let applied := { r with state := observed.2 }.apply parseDuration observed.1
  if applied.1.exit.isSome then
    applied.1
  else if applied.2.disconnect then
    applied.1.finish
  else
    let sent :=
      if applied.2.suppress then applied.1
      else applied.1.forward parseDuration f
    if sent.exit.isNone ∧ f.frontendTag = .terminate then
      sent.finish
    else
      sent

/-- Whether the completion gate closes at a server frame. -/
def gate (r : Relay) (f : Frame) : Bool :=
  (r.state.completionBoundary f).any fun boundary =>
    r.matchers.any fun m => m.needsGate boundary

/-- Reset the client after a truncated result and leave the loop. -/
def cut (r : Relay) : Relay :=
  let closed :=
    { r with
      sockets := r.sockets ++ [(Side.frontend, Mode.reset)]
      trace := r.trace ++ [Record.lifecycle r.state.id "result.truncated" ""] }
  closed.finish

/-- `ReadyForQuery` flushes the held frames, or drops them with itself. -/
def settle (r : Relay) (suppress : Bool) (d : Delivery) : Relay :=
  { r with
    toClient := if suppress then r.toClient else r.toClient ++ r.held ++ [d]
    held := []
    heldSize := 0
    truncate := none }

/-- Hold a frame behind the gate. -/
def hold (r : Relay) (d : Delivery) : Relay :=
  if gateLimit < r.heldSize + d.frame.raw.length then
    { r with
      heldSize := r.heldSize + d.frame.raw.length
      exit := some (.error
        "completion gate exceeded 1 MiB; unsupported pipelined completion") }
  else
    { r with
      heldSize := r.heldSize + d.frame.raw.length
      held := r.held ++ [d] }

/-- Write, hold or drop one server frame. -/
def deliver
    (r : Relay)
    (gate suppress : Bool)
    (d : Delivery) : Relay :=
  if d.frame.backendTag = .readyForQuery then
    r.settle suppress d
  else if suppress then
    r
  else if gate ∨ r.held ≠ [] then
    r.hold d
  else
    { r with toClient := r.toClient ++ [d] }

/-- The state right after `apply` has seen the events of a server frame. -/
def observeServer (r : Relay) (f : Frame) : Relay × Disposition :=
  let observed := r.state.backend f
  { r with
    state := observed.2
    received := r.received + 1 }.apply parseDuration observed.1

/-- The server branch of the loop, on a complete frame. -/
def serverFrame (r : Relay) (f : Frame) : Relay :=
  let applied := r.observeServer parseDuration f
  if applied.1.exit.isSome then
    applied.1
  else if applied.2.disconnect then
    applied.1.finish
  else if f.backendTag = .dataRow ∧ applied.1.truncate = some 0 then
    applied.1.cut
  else
    let counted :=
      if f.backendTag = .dataRow then
        { applied.1 with truncate := applied.1.truncate.map (· - 1) }
      else
        applied.1
    let delivered :=
      counted.deliver (r.gate f) applied.2.suppress ⟨r.received, f⟩
    if delivered.exit.isNone ∧ f.backendTag = .dataRow ∧
        delivered.truncate = some 0 then
      delivered.cut
    else
      delivered

/-- One turn of the loop. -/
def step (r : Relay) (input : Input) : Relay :=
  if r.exit.isSome then
    r
  else
    match input with
    | .client (.frame f) => r.clientFrame sha256 parseDuration f
    | .client .eof =>
        { r with sockets := r.sockets ++ [(Side.upstream, Mode.close)] }.finish
    | .client (.error message) => { r with exit := some (.error message) }
    | .server (.frame f) => r.serverFrame parseDuration f
    | .server .eof =>
        { r with sockets := r.sockets ++ [(Side.frontend, Mode.close)] }.finish
    | .server (.error message) => { r with exit := some (.error message) }

/-- A whole run of the loop. -/
def run (r : Relay) (inputs : List Input) : Relay :=
  Machine.run (step sha256 parseDuration) r inputs

end

end Relay

end Pgfault
