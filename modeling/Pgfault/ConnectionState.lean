import Mathlib.Logic.Function.Basic
import Pgfault.Events
import Pgfault.Queue

namespace Pgfault

open Queue

/-!
# The protocol observer

`ConnectionState` follows one session from the frames that pass in both
directions.  Every query cycle waits in a queue from the client frame that
creates it to the `ReadyForQuery` that ends it: client frames work at the back
of the queue and server frames at its front.

Hash maps are total functions to `Option`, and the 64-bit counters are natural
numbers.
-/

/-- The transaction status a `ReadyForQuery` frame reports. -/
inductive TxState where
  | idle
  | inTransaction
  | failedTransaction
  deriving Repr, DecidableEq, Inhabited

/-- A change of a name map that the server has not acknowledged yet. -/
inductive Mutation where
  | parse (name : Bytes) (statement : Statement)
  | bind (name : Bytes) (statement : Statement)
  | close (kind : UInt8) (name : Bytes)
  deriving Repr, DecidableEq

/-- One query cycle, from its first client frame to its `ReadyForQuery`. -/
structure Cycle where
  id : Nat
  statements : List Statement := []
  last : Statement := default
  rows : Nat := 0
  command : String := ""
  error : Bool := false
  extended : Bool := false
  sealed : Bool := false
  statementIndex : Nat := 0
  executions : Nat := 0
  epochAllocated : Bool := false
  mutations : List Mutation := []
  deriving Repr, DecidableEq

/-- Queue a change of a name map behind the earlier ones. -/
def Cycle.queue (mutation : Mutation) (c : Cycle) : Cycle :=
  { c with mutations := c.mutations ++ [mutation] }

/-- A map from statement or portal names. -/
abbrev NameMap := Bytes → Option Statement

namespace NameMap

/-- `HashMap::insert`. -/
def insert (map : NameMap) (name : Bytes) (statement : Statement) : NameMap :=
  Function.update map name (some statement)

/-- `HashMap::remove`. -/
def remove (map : NameMap) (name : Bytes) : NameMap :=
  Function.update map name none

/-- `HashMap::new` and `HashMap::clear`. -/
def empty : NameMap :=
  fun _ => none

end NameMap

/-- The observer of one connection. -/
structure ConnectionState where
  id : Nat
  startup : StartupMetadata
  txState : TxState
  txEpoch : Nat
  prepared : NameMap
  portals : NameMap
  cycles : List Cycle
  nextCycle : Nat
  reliable : Bool
  confirmedPrepared : NameMap
  confirmedPortals : NameMap
  counters : String → Nat

namespace ConnectionState

/-- The observer of a fresh connection. -/
def new (id : Nat) (startup : StartupMetadata) : ConnectionState where
  id := id
  startup := startup
  txState := .idle
  txEpoch := 0
  prepared := NameMap.empty
  portals := NameMap.empty
  cycles := []
  nextCycle := 0
  reliable := true
  confirmedPrepared := NameMap.empty
  confirmedPortals := NameMap.empty
  counters := fun _ => 0

/-- Whether `cycle` starts a new cycle instead of using the last one. -/
def startsCycle (s : ConnectionState) (extended : Bool) : Bool :=
  !extended || s.cycles.getLast?.all Cycle.sealed

/-- The queue effect of `cycle`: push a new cycle where one is due. -/
def openCycle (s : ConnectionState) (extended : Bool) : ConnectionState :=
  if s.startsCycle extended then
    { s with
      nextCycle := s.nextCycle + 1
      cycles := s.cycles ++
        [{ id := s.nextCycle + 1, extended := extended, sealed := !extended }] }
  else
    s

/-- `cycle` together with what the caller does to the returned cycle. -/
def cycle
    (s : ConnectionState)
    (extended : Bool)
    (update : Cycle → Cycle) : ConnectionState :=
  { s.openCycle extended with
    cycles := modifyBack update (s.openCycle extended).cycles }

/-- The cycle an event refers to: the back for client, the front for server. -/
def referenced (s : ConnectionState) (front : Bool) : Option Cycle :=
  if front then s.cycles.getLast? else s.cycles.head?

/-- The statement of a cycle an event refers to. -/
def referencedStatement (front : Bool) (c : Cycle) : Statement :=
  if front then
    c.statements.getLast?.getD c.last
  else
    c.statements.head?.getD c.last

/-- The statement index an event carries. -/
def referencedIndex (front : Bool) (c : Cycle) : Nat :=
  if front then
    c.executions
  else if c.statements.isEmpty then
    max c.statementIndex 1
  else
    c.statementIndex + 1

/-- Raise one event and count its occurrence. -/
def event
    (s : ConnectionState)
    (name : String)
    (front : Bool) : Event × ConnectionState :=
  let c := s.referenced front
  let statement := (c.map (referencedStatement front)).getD default
  let count := s.counters name + 1
  ({ connectionId := s.id
     semanticReliable := s.reliable
     startup := s.startup
     transactionEpoch := s.txEpoch
     queryCycle := (c.map Cycle.id).getD 0
     statementIndex := (c.map (referencedIndex front)).getD 0
     statementClass := statement.statementClass
     sqlFingerprint := statement.fingerprint
     event := name
     occurrence := count
     rowIndex := if name = "result.row" then c.map Cycle.rows else none },
    { s with counters := Function.update s.counters name count })

/-- Raise several events one after the other. -/
def events
    (s : ConnectionState)
    (front : Bool) : List String → List Event × ConnectionState
  | [] => ([], s)
  | name :: rest =>
      let raised := s.event name front
      let later := events raised.2 front rest
      (raised.1 :: later.1, later.2)

/-! ## Client frames -/

/-- `Parse`: prepare the name optimistically and queue the change. -/
def receiveParse
    (sha256 : Bytes → String)
    (s : ConnectionState)
    (body : Bytes) : ConnectionState :=
  let parsed : ConnectionState :=
    match cstr body with
    | some (name, rest) =>
        match cstr rest with
        | some (sql, _) =>
            let statement := Statement.new sha256 sql
            { s with prepared := s.prepared.insert name statement }.cycle true
              (Cycle.queue (.parse name statement))
        | none => s
    | none => s
  parsed.openCycle true

/-- `Bind`: resolve the statement now and bind the portal optimistically. -/
def receiveBind (s : ConnectionState) (body : Bytes) : ConnectionState :=
  let bound : ConnectionState :=
    match cstr body with
    | some (portal, rest) =>
        match cstr rest with
        | some (name, _) =>
            match s.prepared name with
            | some statement =>
                { s with portals := s.portals.insert portal statement }.cycle
                  true (Cycle.queue (.bind portal statement))
            | none => { s with portals := s.portals.remove portal }
        | none => s
    | none => s
  bound.openCycle true

/-- `Close`: a malformed body does not even open a cycle. -/
def receiveClose (s : ConnectionState) (body : Bytes) : ConnectionState :=
  match body with
  | [] => s
  | kind :: rest =>
      match cstr rest with
      | some (name, _) =>
          let queued := s.cycle true (Cycle.queue (.close kind name))
          if kind = 83 then
            { queued with prepared := queued.prepared.remove name }
          else if kind = 80 then
            { queued with portals := queued.portals.remove name }
          else
            queued
      | none => s

/-- The statement a `Query` or `Execute` frame resolves to. -/
def resolve
    (sha256 : Bytes → String)
    (s : ConnectionState)
    (f : Frame) : Statement :=
  if f.frontendTag = .query then
    match cstr f.body with
    | some (sql, _) => Statement.new sha256 sql
    | none => default
  else
    match cstr f.body with
    | some (name, _) => (s.portals name).getD default
    | none => default

/-- Drop the unnamed statement and portal, as a simple query does. -/
def forgetUnnamed (s : ConnectionState) : ConnectionState :=
  { s with
    prepared := s.prepared.remove []
    portals := s.portals.remove []
    confirmedPrepared := s.confirmedPrepared.remove []
    confirmedPortals := s.confirmedPortals.remove [] }

/-- Record one statement at the back of the queue. -/
def recordStatement
    (s : ConnectionState)
    (extended : Bool)
    (statement : Statement) : ConnectionState :=
  s.cycle extended fun c =>
    { c with
      statements := c.statements ++ [statement]
      executions := c.executions + 1 }

/-- The event a statement class adds to its request. -/
def requested : StatementClass → List String
  | .begin => ["transaction.begin.requested"]
  | .commit => ["transaction.commit.requested"]
  | .rollback => ["transaction.rollback.requested"]
  | _ => []

/-- The tag dispatch of `frontend`: the new state and the names to raise. -/
def receive
    (sha256 : Bytes → String)
    (s : ConnectionState)
    (f : Frame) : ConnectionState × List String :=
  match f.frontendTag with
  | .parse => (s.receiveParse sha256 f.body, [])
  | .bind => (s.receiveBind f.body, [])
  | .close => (s.receiveClose f.body, [])
  | .query =>
      let statement := s.resolve sha256 f
      (s.forgetUnnamed.recordStatement false statement,
        ["query.received", "statement.execution_started"] ++
          requested statement.statementClass)
  | .execute =>
      let statement := s.resolve sha256 f
      (s.recordStatement true statement,
        ["frontend.execute", "statement.execution_started"] ++
          requested statement.statementClass)
  | .sync =>
      (s.cycle true fun c => { c with sealed := true }, ["frontend.sync"])
  | _ => (s, [])

/-- Whether a client frame allocates a transaction epoch. -/
def allocatesEpoch (s : ConnectionState) (f : Frame) : Bool :=
  s.txState == .idle && s.cycles.length == 1 &&
    s.cycles.head?.any (fun c => !c.epochAllocated) &&
    (f.frontendTag == .query || f.frontendTag == .execute)

/-- Allocate transaction epochs when work begins from idle. -/
def allocateEpoch (s : ConnectionState) (f : Frame) : ConnectionState :=
  if s.allocatesEpoch f then
    { s with
      txEpoch := s.txEpoch + 1
      cycles := modifyFront (fun c => { c with epochAllocated := true })
        s.cycles }
  else
    s

/-- Observe one client frame. -/
def frontend
    (sha256 : Bytes → String)
    (s : ConnectionState)
    (f : Frame) : List Event × ConnectionState :=
  let received := s.receive sha256 f
  (received.1.allocateEpoch f).events true received.2

/-- The event raised once a `Query` or `Execute` has been forwarded. -/
def forwarded (s : ConnectionState) : Event × ConnectionState :=
  s.event "query.forwarded" true

/-! ## Server frames -/

/-- The completion event a `CommandComplete` frame is expected to lead to. -/
def completionBoundary (s : ConnectionState) (f : Frame) : Option String :=
  if f.backendTag = .commandComplete ∧ s.reliable then
    match s.cycles.head?, text f.body with
    | some c, some tag =>
        match (c.statements.head?.getD c.last).statementClass with
        | .commit =>
            if tag = "COMMIT" then some "transaction.commit.completed" else none
        | .rollback =>
            if tag = "ROLLBACK" then some "transaction.rollback.completed"
            else none
        | .begin => none
        | .other => none
        | _ =>
            if s.txState = .idle then some "transaction.implicit.completed"
            else none
    | _, _ => none
  else
    none

/-- `ParameterStatus`: follow a changed `application_name`. -/
def parameterStatus (s : ConnectionState) (body : Bytes) : ConnectionState :=
  match cstr body with
  | some (key, rest) =>
      if key = ascii "application_name" then
        match cstr rest with
        | some (value, _) =>
            { s with
              startup :=
                { s.startup with
                  applicationName := some (fromUtf8Lossy value) } }
        | none => s
      else
        s
  | none => s

/-- The name maps after the server acknowledged one queued change. -/
def confirm
    (s : ConnectionState)
    (tag : BackendTag)
    (mutation : Option Mutation) : ConnectionState :=
  match mutation, tag with
  | some (.parse name statement), .parseComplete =>
      { s with confirmedPrepared := s.confirmedPrepared.insert name statement }
  | some (.bind name statement), .bindComplete =>
      { s with confirmedPortals := s.confirmedPortals.insert name statement }
  | some (.close kind name), .closeComplete =>
      if kind = 83 then
        { s with confirmedPrepared := s.confirmedPrepared.remove name }
      else
        { s with confirmedPortals := s.confirmedPortals.remove name }
  | _, _ => { s with reliable := false }

/-- `ParseComplete`, `BindComplete` and `CloseComplete`. -/
def acknowledge (s : ConnectionState) (tag : BackendTag) : ConnectionState :=
  let mutation := s.cycles.head?.bind fun c => c.mutations.head?
  { s with
    cycles := modifyFront (fun c => { c with mutations := c.mutations.tail })
      s.cycles }.confirm tag mutation

/-- Take the answered statement off a cycle. -/
def popStatement (c : Cycle) : Cycle :=
  match c.statements with
  | [] => c
  | statement :: rest => { c with statements := rest, last := statement }

/-- The cycle after a `CommandComplete`. -/
def completeCommand (body : Bytes) (c : Cycle) : Cycle :=
  let popped := popStatement { c with command := (text body).getD "" }
  { popped with
    statementIndex :=
      if popped.extended then popped.statementIndex + 1
      else popped.statementIndex
    rows := 0 }

/-- The cycle after a `PortalSuspended`. -/
def suspendPortal (c : Cycle) : Cycle :=
  { popStatement c with rows := 0 }

/-- The state after an `ErrorResponse`, before its event. -/
def fail (s : ConnectionState) : ConnectionState :=
  { s with
    cycles := modifyFront (fun c => { c with error := true, mutations := [] })
      s.cycles
    prepared := s.confirmedPrepared
    portals := s.confirmedPortals }

/-- The status byte of a `ReadyForQuery` body. -/
def statusOf : Bytes → Option TxState
  | [73] => some .idle
  | [84] => some .inTransaction
  | [69] => some .failedTransaction
  | _ => none

/-- The completion event a `ReadyForQuery` with status `status` raises. -/
def completed (s : ConnectionState) (status : TxState) : Option String :=
  match s.cycles.head? with
  | none => none
  | some c =>
      if status ≠ .idle ∨ c.error ∨ ¬ s.reliable then
        none
      else
        match c.last.statementClass with
        | .commit =>
            if c.command = "COMMIT" then some "transaction.commit.completed"
            else none
        | .rollback =>
            if c.command = "ROLLBACK" then some "transaction.rollback.completed"
            else none
        | .other => none
        | _ =>
            if s.txState = .idle ∧ c.command ≠ "" then
              some "transaction.implicit.completed"
            else
              none

/-- The names a `ReadyForQuery` raises before the new status is stored. -/
def readyNames (s : ConnectionState) (status : TxState) : List String :=
  ["backend.ready"] ++
    (if status = .failedTransaction ∧ s.txState ≠ status then
      ["transaction.failed"]
    else []) ++
    (s.completed status).toList

/-- End the front cycle once its `ReadyForQuery` has raised its events. -/
def endCycle (s : ConnectionState) (status : TxState) : ConnectionState :=
  let popped := { s with cycles := s.cycles.tail }
  let cleared :=
    if status = .idle then
      { popped with
        portals := NameMap.empty
        confirmedPortals := NameMap.empty }
    else
      popped
  if cleared.cycles.isEmpty then
    { cleared with
      reliable := true
      prepared := cleared.confirmedPrepared
      portals := cleared.confirmedPortals }
  else
    cleared

/-- `ReadyForQuery` with a known status. -/
def readyForQuery
    (s : ConnectionState)
    (status : TxState) : List Event × ConnectionState :=
  let ready := s.events false (s.readyNames status)
  let entered := { ready.2 with txState := status }
  let settled := entered.events false ["connection.ready"]
  (ready.1 ++ settled.1, settled.2.endCycle status)

/-- Observe one server frame. -/
def backend
    (s : ConnectionState)
    (f : Frame) : List Event × ConnectionState :=
  match f.backendTag with
  | .parameterStatus => ([], s.parameterStatus f.body)
  | .parseComplete => ([], s.acknowledge .parseComplete)
  | .bindComplete => ([], s.acknowledge .bindComplete)
  | .closeComplete => ([], s.acknowledge .closeComplete)
  | .rowDescription => s.events false ["result.started"]
  | .dataRow =>
      { s with
        cycles := modifyFront (fun c => { c with rows := c.rows + 1 })
          s.cycles }.events false ["result.row"]
  | .commandComplete =>
      let raised := s.events false
        ["backend.command_complete", "statement.execution_completed",
          "result.completed"]
      (raised.1,
        { raised.2 with
          cycles := modifyFront (completeCommand f.body) raised.2.cycles })
  | .portalSuspended =>
      ([], { s with cycles := modifyFront suspendPortal s.cycles })
  | .errorResponse => s.fail.events false ["backend.error"]
  | .readyForQuery =>
      match statusOf f.body with
      | some status => s.readyForQuery status
      | none => ([], s)
  | _ => ([], s)

end ConnectionState

end Pgfault
