import Pgfault.Lifecycle
import Pgfault.Pool
import Pgfault.StartupParameters

namespace Pgfault

/-!
# All connections of a proxy

`serve` spawns a task for every accepted client and gives it the next number.  The
tasks share the trace, which takes one record at a time, and nothing else: what
the trace holds of a connection is what that connection has written by itself, told
what the run tells it (`connections_isolated`), in the order of its life
(`trace_orderly`).

When `serve` has ended, its tasks are aborted one after the other; what a task
does until then is still traced.
-/

/-- What happens to a proxy. -/
inductive SystemEvent where
  | shutdown
  | acceptFailed (message : String)
  | accepted (client : Client) (server : Upstream)
  /-- The runtime lets a task go on. -/
  | turn (id : Nat) (event : TaskEvent)
  /-- A task writes its next record. -/
  | writes (id : Nat)
  | joined (id : Nat)
  | aborted (id : Nat)

/-- The variables of `serve`, its tasks and the trace. -/
structure System where
  nextId : Nat := 0
  pool : Pool Task Record := {}
  result : Option ServeEnd := none

namespace System

/-- Whether a connection task has come to its end, with all it has recorded. -/
def ended (slot : Slot Task) : Bool :=
  Pool.flushed Task.records slot &&
    match slot.task.phase with
    | .closed _ => true
    | .panicked _ => true
    | _ => false

section

variable (serverName : String → Bool) (sha256 : Bytes → String)
variable (parseDuration : String → Except String Nat) (config : Config)

/-- One step of a connection task of this proxy. -/
abbrev taskStep : Task → TaskEvent → Task :=
  Task.step serverName sha256 parseDuration config

/-- One event. -/
def step (s : System) (event : SystemEvent) : System :=
  match event with
  | .shutdown =>
      { s with result := s.result.or (some .shutdown) }
  | .acceptFailed message =>
      { s with result := s.result.or (some (.acceptError message)) }
  | .accepted client server =>
      if s.result.isSome then
        s
      else
        { s with
          nextId := s.nextId + 1
          pool :=
            s.pool.spawn (s.nextId + 1)
              (Task.accepted (s.nextId + 1) client server) }
  | .turn id event =>
      { s with
        pool :=
          s.pool.advance (taskStep serverName sha256 parseDuration config)
            Task.records id event }
  | .writes id => { s with pool := s.pool.write Task.records id }
  | .joined id =>
      match s.result, s.pool.find? id with
      | none, some slot =>
          if ended slot then
            { s with
              pool := s.pool.remove id
              result :=
                match slot.task.phase with
                | .panicked _ => some (.joinError id)
                | _ => none }
          else
            s
      | _, _ => s
  | .aborted id =>
      if s.result.isSome then { s with pool := s.pool.remove id } else s

/-- A whole run of a proxy. -/
def run (events : List SystemEvent) : System :=
  Machine.run (step serverName sha256 parseDuration config) {} events

end

/-- The trace of a proxy. -/
def trace (s : System) : List Record :=
  s.pool.log

/-- The accepted clients, with the servers that were there for them. -/
def accepts : List SystemEvent → List (Client × Upstream) :=
  List.filterMap fun
    | .accepted client server => some (client, server)
    | _ => none

/-- What an event tells a task, if the task is there. -/
def told (s : System) (id : Nat) : SystemEvent → List (Pool.Move TaskEvent)
  | .turn other event =>
      if other = id ∧ s.pool.present id then [.goes event] else []
  | .writes other => if other = id ∧ s.pool.present id then [.writes] else []
  | _ => []

/-- What the accept loop sees of an event: a join only where a task has ended. -/
def sees (s : System) : SystemEvent → List ServeEvent
  | .shutdown => [.shutdown]
  | .acceptFailed message => [.acceptFailed message]
  | .accepted client _ => [.accepted client]
  | .joined id =>
      if (s.pool.find? id).any ended then
        [.joined (s.pool.slots.findIdx (·.id = id))]
      else
        []
  | _ => []

@[simp] theorem accepts_append (events later : List SystemEvent) :
    accepts (events ++ later) = accepts events ++ accepts later :=
  List.filterMap_append

section

variable (serverName : String → Bool) (sha256 : Bytes → String)
variable (parseDuration : String → Except String Nat) (config : Config)

/-- Everything a run tells one of its tasks. -/
def moves
    (id : Nat)
    (s : System) : List SystemEvent → List (Pool.Move TaskEvent)
  | [] => []
  | event :: rest =>
      s.told id event ++
        moves id (s.step serverName sha256 parseDuration config event) rest

/-- What the accept loop sees of a run. -/
def seen (s : System) : List SystemEvent → List ServeEvent
  | [] => []
  | event :: rest =>
      s.sees event ++
        seen (s.step serverName sha256 parseDuration config event) rest

/-- A connection by itself, told certain things. -/
def solo
    (id : Nat)
    (client : Client)
    (server : Upstream)
    (told : List (Pool.Move TaskEvent)) : Slot Task :=
  Machine.run
    (Pool.move (taskStep serverName sha256 parseDuration config) Task.records)
    ⟨id, Task.accepted id client server, 0⟩ told

theorem moves_append (id : Nat) (s : System) (events later : List SystemEvent) :
    moves serverName sha256 parseDuration config id s (events ++ later) =
      moves serverName sha256 parseDuration config id s events ++
        moves serverName sha256 parseDuration config id
          (Machine.run (step serverName sha256 parseDuration config) s events)
          later := by
  induction events generalizing s with
  | nil =>
      rfl
  | cons event rest inductionHypothesis =>
      rw [List.cons_append, moves, inductionHypothesis, moves,
        List.append_assoc, Machine.run_cons]

theorem seen_append (s : System) (events later : List SystemEvent) :
    seen serverName sha256 parseDuration config s (events ++ later) =
      seen serverName sha256 parseDuration config s events ++
        seen serverName sha256 parseDuration config
          (Machine.run (step serverName sha256 parseDuration config) s events)
          later := by
  induction events generalizing s with
  | nil =>
      rfl
  | cons event rest inductionHypothesis =>
      rw [List.cons_append, seen, inductionHypothesis, seen, List.append_assoc,
        Machine.run_cons]

@[simp] theorem solo_id
    (id : Nat)
    (client : Client)
    (server : Upstream)
    (told : List (Pool.Move TaskEvent)) :
    (solo serverName sha256 parseDuration config id client server told).id =
      id :=
  Machine.run_induction (motive := fun _ (slot : Slot Task) => slot.id = id) rfl
    (fun _ m isId => (Pool.move_id _ m).trans isId) told

end

/-! ## Two clients at once -/

/-- A startup packet with these parameters. -/
def startupOf (params : List (Bytes × Bytes)) : Bytes :=
  beBytes (8 + (encodeParameters params).length) ++ beBytes PROTOCOL_V3 ++
    encodeParameters params

/-- The parameters of a packet are those it was made of. -/
theorem metadata_startupOf
    {params : List (Bytes × Bytes)}
    (encodable : Encodable params) :
    metadata (startupOf params) = .value (storeAll default params) := by
  have header :
      (beBytes (8 + (encodeParameters params).length) ++
        beBytes PROTOCOL_V3).length = 8 :=
    rfl
  have behind : (startupOf params).drop 8 = encodeParameters params :=
    List.drop_left' header
  have atLeast : 8 ≤ (startupOf params).length := by
    rw [startupOf, List.length_append, header]
    exact Nat.le_add_right _ _
  rw [metadata, slice_of_le atLeast (Nat.le_refl _), List.take_length, behind,
    Flow.bind]
  exact parameters_encode params encodable default

/-- Reset the client of a user at its first query. -/
def cutApp : Scenario where
  version := 1
  name := "cut-app"
  selector := { user := some "app" }
  when := { event := "query.received" }
  action := { disconnect := some ⟨.frontend, .reset⟩ }

/-- A proxy that takes TLS and cuts one user off. -/
def guarded : Config where
  upstream := "db.internal:5432"
  scenarios := [cutApp]
  acceptor := true
  connector := false

/-- A user of the proxy. -/
def userNamed (name : String) : List (Bytes × Bytes) :=
  [(ascii "user", ascii name)]

/-- What the observer knows of this user. -/
def metadataOf (name : String) : StartupMetadata where
  user := some name
  database := none
  applicationName := none

/-- A client that asks for encryption first. -/
def app : Client where
  bytes := EncryptionRequest.ssl.packet ++ startupOf (userNamed "app")

/-- A client that does not. -/
def guest : Client where
  bytes := startupOf (userNamed "guest")

/-- A query wakes the loop. -/
def query : Wake :=
  .read .frontend
    ⟨(message 'Q' (ascii "SELECT 1" ++ [0])).raw, List.cons_ne_nil _ _⟩

/-- So does its answer, which the server sends at once. -/
def answer : Wake :=
  .read .upstream
    ⟨(message 'C' (ascii "SELECT 1" ++ [0])).raw ++
      (message 'Z' (ascii "I")).raw, List.cons_ne_nil _ _⟩

/-- Both clients are accepted and connected. -/
def bothOpen : List SystemEvent :=
  [.accepted app Task.willing, .accepted guest Task.willing,
    .turn 2 .opens, .turn 1 .opens]

/-- Both send a query, and one of them is cut off. -/
def oneCut : List SystemEvent :=
  [.writes 2, .writes 1, .turn 1 (.wakes query), .turn 2 (.wakes query),
    .writes 2, .writes 1, .writes 1, .turn 1 .closes, .writes 1]

/--
The other one gets its answer, and has one more record to write when the one that
was cut off is joined.
-/
def twoClients : List SystemEvent :=
  bothOpen ++
    (oneCut ++
      [.turn 1 .closes, .writes 2, .writes 2, .turn 2 (.wakes answer),
        .writes 2, .writes 1, .writes 2, .writes 2,
        .turn 2 (.wakes (.poll .upstream)), .writes 2, .writes 2, .joined 1])

/-- A task in its loop. -/
def relays (id : Nat) (client : Client) (name : String) : Task where
  id := id
  client := client
  server := Task.willing
  phase :=
    .relaying (Pipe.start id (metadataOf name) guarded.scenarios)
  replies := if name = "app" then [83] else []
  opened := [⟨.plain, startupOf (userNamed name)⟩]
  records := [.lifecycle id "startup" ""]

theorem opens_app :
    (Task.accepted 1 app Task.willing).opens (fun _ => true) guarded =
      relays 1 app "app" := by
  have bytes :
      (Task.accepted 1 app Task.willing).client.bytes =
        [EncryptionRequest.ssl].flatMap EncryptionRequest.packet ++
          (startupOf (userNamed "app") ++ []) :=
    rfl
  have isPacket : IsPacket (startupOf (userNamed "app")) PROTOCOL_V3 := by
    constructor <;> decide
  have read :
      metadata (startupOf (userNamed "app")) = .value (metadataOf "app") := by
    rw [metadata_startupOf (by unfold Encodable; decide)]
    decide +kernel
  exact Task.opens_started (fun _ => true) guarded bytes (fun _ => by decide)
    isPacket read rfl

theorem opens_guest :
    (Task.accepted 2 guest Task.willing).opens (fun _ => true) guarded =
      relays 2 guest "guest" := by
  have bytes :
      (Task.accepted 2 guest Task.willing).client.bytes =
        ([] : List EncryptionRequest).flatMap EncryptionRequest.packet ++
          (startupOf (userNamed "guest") ++ []) :=
    rfl
  have isPacket : IsPacket (startupOf (userNamed "guest")) PROTOCOL_V3 := by
    constructor <;> decide
  have read :
      metadata (startupOf (userNamed "guest")) =
        .value (metadataOf "guest") := by
    rw [metadata_startupOf (by unfold Encodable; decide)]
    decide +kernel
  exact Task.opens_started (fun _ => true) guarded bytes (fun _ => by decide)
    isPacket read rfl

/-- Both clients are in their loops. -/
def bothRelay : System where
  nextId := 2
  pool :=
    { slots :=
        [⟨1, relays 1 app "app", 0⟩, ⟨2, relays 2 guest "guest", 0⟩] }

/-- The openings, which need no evaluation. -/
theorem run_bothOpen :
    run (fun _ => true) sampleSha256 (fun _ => .ok 0) guarded bothOpen =
      bothRelay := by
  rw [bothRelay, ← opens_app, ← opens_guest]
  rfl

section

variable (later : List SystemEvent)

theorem run_behind :
    run (fun _ => true) sampleSha256 (fun _ => .ok 0) guarded
        (bothOpen ++ later) =
      Machine.run (step (fun _ => true) sampleSha256 (fun _ => .ok 0) guarded)
        bothRelay later := by
  rw [← run_bothOpen, run, run, Machine.run_append]

theorem moves_behind (id : Nat) :
    moves (fun _ => true) sampleSha256 (fun _ => .ok 0) guarded id {}
        (bothOpen ++ later) =
      moves (fun _ => true) sampleSha256 (fun _ => .ok 0) guarded id {}
          bothOpen ++
        moves (fun _ => true) sampleSha256 (fun _ => .ok 0) guarded id bothRelay
          later := by
  rw [← run_bothOpen, run, moves_append]

theorem seen_behind :
    seen (fun _ => true) sampleSha256 (fun _ => .ok 0) guarded {}
        (bothOpen ++ later) =
      seen (fun _ => true) sampleSha256 (fun _ => .ok 0) guarded {} bothOpen ++
        seen (fun _ => true) sampleSha256 (fun _ => .ok 0) guarded bothRelay
          later := by
  rw [← run_bothOpen, run, seen_append]

end

/-- An event of the query of a user. -/
def firstQuery (id : Nat) (name event : String) : Event where
  connectionId := id
  semanticReliable := true
  startup := metadataOf name
  transactionEpoch := 1
  queryCycle := 1
  statementIndex := 1
  statementClass := .select
  sqlFingerprint := sampleSha256 (ascii "SELECT 1")
  event := event
  occurrence := 1
  rowIndex := none

/-- What is traced until one of them is cut off. -/
def cutRecords : List Record :=
  [.lifecycle 2 "startup" "", .lifecycle 1 "startup" "",
    .semantic (firstQuery 2 "guest" "query.received"),
    .semantic (firstQuery 1 "app" "query.received"),
    .fault (firstQuery 1 "app" "query.received") cutApp,
    .semantic (firstQuery 1 "app" "statement.execution_started")]

/-- What is traced behind that. -/
def laterRecords : List Record :=
  [.semantic (firstQuery 2 "guest" "statement.execution_started"),
    .semantic (firstQuery 2 "guest" "query.forwarded"),
    .semantic (firstQuery 2 "guest" "backend.command_complete"),
    .lifecycle 1 "connection.closed" "",
    .semantic (firstQuery 2 "guest" "statement.execution_completed"),
    .semantic (firstQuery 2 "guest" "result.completed"),
    .semantic (firstQuery 2 "guest" "backend.ready"),
    .semantic (firstQuery 2 "guest" "transaction.implicit.completed")]

theorem trace_twoClients :
    (run (fun _ => true) sampleSha256 (fun _ => .ok 0) guarded
      twoClients).trace = cutRecords ++ laterRecords := by
  rw [twoClients, run_behind]
  decide +kernel

theorem guarded_valid :
    ∀ s ∈ guarded.scenarios, s.validate (fun _ => .ok 0) = .ok () := by
  decide +kernel

section

variable (serverName : String → Bool) (sha256 : Bytes → String)
variable (parseDuration : String → Except String Nat) (config : Config)

/-! ## Tasks as a pool needs them -/

/-- A task under its number, as it can be after a run. -/
def Numbered (id : Nat) (t : Task) : Prop :=
  t.id = id ∧ Task.Sound sha256 parseDuration config t

/-- A step does not change the number of a task. -/
theorem taskStep_id (t : Task) (event : TaskEvent) :
    (taskStep serverName sha256 parseDuration config t event).id = t.id := by
  unfold taskStep Task.step
  split
  · exact (Task.opens_keeps serverName config t).1
  · rfl
  · rfl
  · rfl

theorem tidy
    (valid : ∀ s ∈ config.scenarios, s.validate parseDuration = .ok ()) :
    Pool.Tidy (taskStep serverName sha256 parseDuration config) Task.records
      Record.connection (Numbered sha256 parseDuration config) where
  keeps := by
    rintro id t event ⟨isId, sound⟩
    refine ⟨?_, sound.step serverName event⟩
    rw [taskStep_id]
    exact isId
  grows := by
    rintro id t event ⟨-, sound⟩
    exact sound.records_prefix valid serverName event
  own := by
    rintro id t ⟨isId, sound⟩ r member
    rw [← isId]
    exact (sound.stands.orderly valid).own r member

/-! ## Every connection of a run -/

/-- A connection of a proxy against the same connection by itself. -/
structure Serves
    (events : List SystemEvent)
    (s : System)
    (id : Nat)
    (client : Client)
    (server : Upstream)
    (slot : Slot Task) : Prop where
  accepted : (accepts events)[id - 1]? = some (client, server)
  isSolo :
    slot =
      solo serverName sha256 parseDuration config id client server
        (moves serverName sha256 parseDuration config id {} events)
  alone : Pool.Alone Task.records Record.connection s.pool slot
  good : Numbered sha256 parseDuration config id slot.task
  joined :
    s.result = none →
    s.pool.present id = false →
    slot.written = slot.task.records.length ∧
      ∃ pipe, slot.task.phase = .closed pipe

/-- What holds after every run of a proxy. -/
structure Isolated (events : List SystemEvent) (s : System) : Prop where
  reached : run serverName sha256 parseDuration config events = s
  numbered :
    s.nextId ≤ (accepts events).length ∧
      (s.result = none → s.nextId = (accepts events).length)
  untold :
    ∀ id, s.nextId < id →
      moves serverName sha256 parseDuration config id {} events = []
  tasks : Pool.Good (Numbered sha256 parseDuration config) s.pool
  slots : ∀ id ∈ s.pool.slots.map Slot.id, 0 < id ∧ id ≤ s.nextId
  logged : ∀ r ∈ s.trace, 0 < r.connection ∧ r.connection ≤ s.nextId
  serves :
    ∀ id, 0 < id → id ≤ s.nextId →
      ∃ client server slot,
        Serves serverName sha256 parseDuration config events s id client
          server slot

variable {serverName sha256 parseDuration config}

/-- A task that is not there is told nothing. -/
theorem told_of_absent
    {s : System}
    {id : Nat}
    (absent : s.pool.present id = false)
    (event : SystemEvent) :
    s.told id event = [] := by
  cases event <;> simp [told, absent]

/-- A number that has not been given away is told nothing. -/
theorem Isolated.untold_next
    {events : List SystemEvent}
    {s : System}
    (isolated : Isolated serverName sha256 parseDuration config events s)
    (event : SystemEvent)
    {id : Nat}
    (unknown : s.nextId < id) :
    moves serverName sha256 parseDuration config id {} (events ++ [event]) =
      [] := by
  have absent : s.pool.present id = false := by
    rw [Pool.not_present_iff]
    rintro slot member rfl
    have known := (isolated.slots slot.id (List.mem_map_of_mem member)).2
    omega
  rw [moves_append, isolated.untold id unknown, ← run, isolated.reached, moves,
    told_of_absent absent]
  rfl

theorem Serves.isId
    {events : List SystemEvent}
    {s : System}
    {id : Nat}
    {client : Client}
    {server : Upstream}
    {slot : Slot Task}
    (serves :
      Serves serverName sha256 parseDuration config events s id client server
        slot) :
    slot.id = id := by
  rw [serves.isSolo, solo_id]

/-- A connection behind one more event. -/
theorem Serves.event
    {events : List SystemEvent}
    {s t : System}
    (reached : run serverName sha256 parseDuration config events = s)
    {id : Nat}
    {client : Client}
    {server : Upstream}
    {slot next : Slot Task}
    (serves :
      Serves serverName sha256 parseDuration config events s id client server
        slot)
    {event : SystemEvent}
    (moved :
      Machine.run
        (Pool.move (taskStep serverName sha256 parseDuration config)
          Task.records)
        slot (s.told id event) = next)
    (alone : Pool.Alone Task.records Record.connection t.pool next)
    (good : Numbered sha256 parseDuration config id next.task)
    (joined :
      t.result = none →
      t.pool.present id = false →
      next.written = next.task.records.length ∧
        ∃ pipe, next.task.phase = .closed pipe) :
    Serves serverName sha256 parseDuration config (events ++ [event]) t id
      client server next where
  accepted := by
    rw [accepts_append]
    have isAt := serves.accepted
    rw [List.getElem?_append_left (List.getElem?_eq_some_iff.mp isAt).1]
    exact isAt
  isSolo := by
    have last :
        moves serverName sha256 parseDuration config id s [event] =
          s.told id event :=
      List.append_nil _
    rw [moves_append, ← run, reached, last, solo, Machine.run_append, ← solo,
      ← serves.isSolo, moved]
  alone := alone
  good := good
  joined := joined

/-- An event that tells a connection nothing. -/
theorem Serves.still
    {events : List SystemEvent}
    {s t : System}
    (reached : run serverName sha256 parseDuration config events = s)
    {id : Nat}
    {client : Client}
    {server : Upstream}
    {slot : Slot Task}
    (serves :
      Serves serverName sha256 parseDuration config events s id client server
        slot)
    {event : SystemEvent}
    (untold : s.told id event = [])
    (alone : Pool.Alone Task.records Record.connection t.pool slot)
    (present :
      t.result = none →
      s.result = none ∧
        (s.pool.present id = true → t.pool.present id = true)) :
    Serves serverName sha256 parseDuration config (events ++ [event]) t id
      client server slot := by
  refine serves.event reached (by rw [untold]; rfl) alone serves.good ?_
  intro running away
  obtain ⟨ran, stays⟩ := present running
  refine serves.joined ran ?_
  by_contra inside
  rw [stays (by simpa using inside)] at away
  cases away

/-- An event that accepts nobody, or comes too late. -/
theorem Isolated.next
    {events : List SystemEvent}
    {s t : System}
    (isolated : Isolated serverName sha256 parseDuration config events s)
    {event : SystemEvent}
    (stepped : s.step serverName sha256 parseDuration config event = t)
    (nobody : t.result = none → accepts [event] = [])
    (nextId : t.nextId = s.nextId)
    (running : t.result = none → s.result = none)
    (holds : Pool.Good (Numbered sha256 parseDuration config) t.pool)
    (slots : ∀ id ∈ t.pool.slots.map Slot.id, id ∈ s.pool.slots.map Slot.id)
    (logged :
      ∀ r ∈ t.trace,
        r ∈ s.trace ∨ r.connection ∈ s.pool.slots.map Slot.id)
    (serves :
      ∀ {id client server slot},
        Serves serverName sha256 parseDuration config events s id client
          server slot →
        ∃ next,
          Serves serverName sha256 parseDuration config (events ++ [event]) t
            id client server next) :
    Isolated serverName sha256 parseDuration config (events ++ [event]) t where
  reached := by
    rw [run, Machine.run_append, ← run, isolated.reached]
    exact stepped
  numbered := by
    rw [accepts_append, List.length_append, nextId]
    refine ⟨Nat.le_add_right_of_le isolated.numbered.1, ?_⟩
    intro runs
    rw [nobody runs]
    exact isolated.numbered.2 (running runs)
  untold id unknown := by
    rw [nextId] at unknown
    exact isolated.untold_next event unknown
  tasks := holds
  slots id member := by
    rw [nextId]
    exact isolated.slots id (slots id member)
  logged r member := by
    rw [nextId]
    rcases logged r member with old | isNew
    · exact isolated.logged r old
    · exact isolated.slots _ isNew
  serves id positive known := by
    rw [nextId] at known
    obtain ⟨client, server, slot, served⟩ := isolated.serves id positive known
    obtain ⟨next, served⟩ := serves served
    exact ⟨client, server, next, served⟩

/-- `serve` ends. -/
theorem Isolated.halt
    {events : List SystemEvent}
    {s : System}
    (isolated : Isolated serverName sha256 parseDuration config events s)
    {event : SystemEvent}
    {finish : ServeEnd}
    (stepped :
      s.step serverName sha256 parseDuration config event =
        { s with result := s.result.or (some finish) })
    (untold : ∀ id, s.told id event = []) :
    Isolated serverName sha256 parseDuration config (events ++ [event])
      { s with result := s.result.or (some finish) } := by
  have halted :
      ({ s with result := s.result.or (some finish) } : System).result ≠
        none := by
    cases s.result <;> simp
  refine isolated.next stepped (fun running => absurd running halted) rfl
    (fun running => absurd running halted) isolated.tasks
    (fun _ member => member) (fun _ member => Or.inl member) ?_
  intro id client server slot serves
  exact ⟨slot, serves.still isolated.reached (untold id) serves.alone
    fun running => absurd running halted⟩

/-- A client is accepted. -/
theorem Isolated.accept
    {events : List SystemEvent}
    {s : System}
    (isolated : Isolated serverName sha256 parseDuration config events s)
    (running : s.result = none)
    (client : Client)
    (server : Upstream) :
    Isolated serverName sha256 parseDuration config
      (events ++ [.accepted client server])
      { s with
        nextId := s.nextId + 1
        pool :=
          s.pool.spawn (s.nextId + 1)
            (Task.accepted (s.nextId + 1) client server) } := by
  have count := isolated.numbered.2 running
  have fresh : ∀ slot ∈ s.pool.slots, slot.id ≠ s.nextId + 1 := by
    intro slot member isNew
    have known :=
      (isolated.slots slot.id (List.mem_map_of_mem member)).2
    omega
  have unlogged : ∀ r ∈ s.pool.log, r.connection ≠ s.nextId + 1 := by
    intro r member isNew
    have known := (isolated.logged r member).2
    omega
  have isLast : accepts [.accepted client server] = [(client, server)] := rfl
  have stepped :
      s.step serverName sha256 parseDuration config
          (.accepted client server) =
        { s with
          nextId := s.nextId + 1
          pool :=
            s.pool.spawn (s.nextId + 1)
              (Task.accepted (s.nextId + 1) client server) } := by
    simp [System.step, running]
  have whole :
      run serverName sha256 parseDuration config
          (events ++ [.accepted client server]) =
        { s with
          nextId := s.nextId + 1
          pool :=
            s.pool.spawn (s.nextId + 1)
              (Task.accepted (s.nextId + 1) client server) } := by
    rw [run, Machine.run_append, ← run, isolated.reached]
    exact stepped
  refine ⟨whole, ?_, ?_, ?_, ?_, ?_, ?_⟩
  · rw [accepts_append, isLast, List.length_append]
    simp only [List.length_singleton]
    omega
  · intro id unknown
    exact isolated.untold_next _ (Nat.lt_of_succ_lt unknown)
  · exact isolated.tasks.spawn
      ⟨rfl, Task.sound_accepted sha256 parseDuration config _ client server⟩
  · intro id member
    simp only [Pool.spawn, List.map_append, List.mem_append] at member
    rcases member with old | isNew
    · have known := isolated.slots id old
      exact ⟨known.1, Nat.le_succ_of_le known.2⟩
    · rw [List.mem_singleton.mp isNew]
      exact ⟨Nat.succ_pos _, Nat.le_refl _⟩
  · intro r member
    have known := isolated.logged r member
    exact ⟨known.1, Nat.le_succ_of_le known.2⟩
  · intro id positive known
    by_cases old : id ≤ s.nextId
    · obtain ⟨earlier, upstream, slot, serves⟩ :=
        isolated.serves id positive old
      refine ⟨earlier, upstream, slot, serves.still isolated.reached rfl
        (serves.alone.spawn (by rw [serves.isId]; omega) _) ?_⟩
      intro _
      refine ⟨running, ?_⟩
      intro there
      rw [Pool.present_iff_mem] at there ⊢
      simp only [Pool.spawn, List.map_append, List.mem_append]
      exact Or.inl there
    · have isNew : id = s.nextId + 1 :=
        Nat.le_antisymm known (Nat.lt_of_not_le old)
      subst isNew
      refine ⟨client, server, _, ?_, ?_, Pool.alone_spawn fresh unlogged _,
        ⟨rfl, Task.sound_accepted sha256 parseDuration config _ client server⟩,
        ?_⟩
      · rw [accepts_append, isLast, Nat.add_sub_cancel, count]
        simp
      · rw [isolated.untold_next _ (Nat.lt_succ_self _)]
        rfl
      · intro _ away
        rw [Pool.not_present_iff] at away
        refine absurd rfl (away
          ⟨s.nextId + 1, Task.accepted (s.nextId + 1) client server, 0⟩ ?_)
        exact List.mem_append_right _ (List.mem_singleton_self _)

/-- A task goes on. -/
theorem Isolated.turn
    (valid : ∀ s ∈ config.scenarios, s.validate parseDuration = .ok ())
    {events : List SystemEvent}
    {s : System}
    (isolated : Isolated serverName sha256 parseDuration config events s)
    (id : Nat)
    (event : TaskEvent) :
    Isolated serverName sha256 parseDuration config
      (events ++ [.turn id event])
      { s with
        pool :=
          s.pool.advance (taskStep serverName sha256 parseDuration config)
            Task.records id event } := by
  have tidies := tidy serverName sha256 parseDuration config valid
  refine isolated.next rfl (fun _ => rfl) rfl (fun running => running)
    (isolated.tasks.advance tidies id event) ?_
    (fun _ member => Or.inl member) ?_
  · intro other member
    rw [Pool.map_id_advance] at member
    exact member
  · intro other client server slot serves
    have isOther := serves.isId
    have kept
        (there : s.pool.present other = true) :
        (s.pool.advance (taskStep serverName sha256 parseDuration config)
          Task.records id event).present other = true := by
      rw [Pool.present_iff_mem] at there ⊢
      rw [Pool.map_id_advance]
      exact there
    by_cases hit : id = other ∧ s.pool.present other = true
    · obtain ⟨rfl, there⟩ := hit
      have isGood : Numbered sha256 parseDuration config slot.id slot.task := by
        rw [isOther]
        exact serves.good
      have advanced := serves.alone.advance tidies isGood event
      rw [isOther] at advanced
      refine ⟨_, serves.event isolated.reached ?_ advanced ?_ ?_⟩
      · simp [told, there]
      · simp only [Pool.move]
        split
        · exact tidies.keeps event serves.good
        · exact serves.good
      · intro _ away
        rw [kept there] at away
        cases away
    · have untold : s.told other (.turn id event) = [] := by
        simp only [told, if_neg hit]
      refine ⟨slot, serves.still isolated.reached untold ?_
        fun running => ⟨running, kept⟩⟩
      by_cases same : id = other
      · have absent : s.pool.present id = false := by
          rw [same]
          simpa using fun there => hit ⟨same, there⟩
        simp only [Pool.advance_of_absent absent]
        exact serves.alone
      · exact serves.alone.advance_other (by rw [isOther]; exact same) event

/-- A task writes a record. -/
theorem Isolated.write
    (valid : ∀ s ∈ config.scenarios, s.validate parseDuration = .ok ())
    {events : List SystemEvent}
    {s : System}
    (isolated : Isolated serverName sha256 parseDuration config events s)
    (id : Nat) :
    Isolated serverName sha256 parseDuration config (events ++ [.writes id])
      { s with pool := s.pool.write Task.records id } := by
  have tidies := tidy serverName sha256 parseDuration config valid
  refine isolated.next rfl (fun _ => rfl) rfl (fun running => running)
    (isolated.tasks.write id) ?_ ?_ ?_
  · intro other member
    rw [Pool.map_id_write] at member
    exact member
  · intro r member
    exact Pool.owner_of_write tidies isolated.tasks member
  · intro other client server slot serves
    have isOther := serves.isId
    have kept
        (there : s.pool.present other = true) :
        (s.pool.write Task.records id).present other = true := by
      rw [Pool.present_iff_mem] at there ⊢
      rw [Pool.map_id_write]
      exact there
    by_cases hit : id = other ∧ s.pool.present other = true
    · obtain ⟨rfl, there⟩ := hit
      have isGood : Numbered sha256 parseDuration config slot.id slot.task := by
        rw [isOther]
        exact serves.good
      have wrote :=
        serves.alone.write tidies isGood (by rw [isOther]; exact there)
      rw [isOther] at wrote
      refine ⟨_, serves.event isolated.reached ?_ wrote ?_ ?_⟩
      · simp [told, there]
      · simp only [Pool.move]
        split <;> exact serves.good
      · intro _ away
        rw [kept there] at away
        cases away
    · have untold : s.told other (.writes id) = [] := by
        simp only [told, if_neg hit]
      refine ⟨slot, serves.still isolated.reached untold ?_
        fun running => ⟨running, kept⟩⟩
      by_cases same : id = other
      · have absent : s.pool.present id = false := by
          rw [same]
          simpa using fun there => hit ⟨same, there⟩
        simp only [Pool.write_of_absent absent]
        exact serves.alone
      · exact serves.alone.write_other tidies isolated.tasks
          (by rw [isOther]; exact same)

/-- A task is taken out: it is joined at its end, or `serve` has ended. -/
theorem Isolated.remove
    {events : List SystemEvent}
    {s : System}
    (isolated : Isolated serverName sha256 parseDuration config events s)
    {event : SystemEvent}
    {id : Nat}
    {result : Option ServeEnd}
    (stepped :
      s.step serverName sha256 parseDuration config event =
        { s with pool := s.pool.remove id, result := result })
    (nobody : accepts [event] = [])
    (untold : ∀ id, s.told id event = [])
    (joins :
      result = none →
      s.result = none ∧
        ∃ slot ∈ s.pool.slots,
          slot.id = id ∧ slot.written = slot.task.records.length ∧
            ∃ pipe, slot.task.phase = .closed pipe) :
    Isolated serverName sha256 parseDuration config (events ++ [event])
      { s with pool := s.pool.remove id, result := result } := by
  refine isolated.next stepped (fun _ => nobody) rfl
    (fun running => (joins running).1)
    (isolated.tasks.remove id) ?_ (fun _ member => Or.inl member) ?_
  · intro other member
    obtain ⟨slot, isSlot, isOther⟩ := List.mem_map.mp member
    exact List.mem_map.mpr ⟨slot, (List.mem_filter.mp isSlot).1, isOther⟩
  · intro other client server slot serves
    refine ⟨slot, serves.event isolated.reached (by rw [untold]; rfl)
      (serves.alone.remove id) serves.good ?_⟩
    intro running away
    obtain ⟨ran, ended, isEnded, isId, all, pipe, closed⟩ := joins running
    by_cases same : other = id
    · subst same
      have isSlot :=
        serves.alone.slot ended isEnded (isId.trans serves.isId.symm)
      rw [isSlot] at all closed
      exact ⟨all, pipe, closed⟩
    · refine serves.joined ran ?_
      rw [Pool.not_present_iff] at away ⊢
      intro found isFound isOther
      refine away found ?_ isOther
      refine List.mem_filter.mpr ⟨isFound, ?_⟩
      simpa [isOther] using same

/-- What a join does, if a task has ended. -/
theorem joined_cases (s : System) (id : Nat) :
    s.step serverName sha256 parseDuration config (.joined id) = s ∧
        (s.result.isSome = true ∨ (s.pool.find? id).any ended = false) ∨
      s.result = none ∧
        ∃ slot,
          s.pool.find? id = some slot ∧
            ended slot = true ∧
            slot.written = slot.task.records.length ∧
            ((∃ pipe, slot.task.phase = .closed pipe) ∧
                s.step serverName sha256 parseDuration config (.joined id) =
                  { s with pool := s.pool.remove id, result := none } ∨
              (∃ message, slot.task.phase = .panicked message) ∧
                s.step serverName sha256 parseDuration config (.joined id) =
                  { s with
                    pool := s.pool.remove id
                    result := some (.joinError id) }) := by
  cases result : s.result with
  | some finish =>
      left
      simp [step, result]
  | none =>
      cases found : s.pool.find? id with
      | none =>
          left
          simp [step, result, found]
      | some slot =>
          by_cases isEnded : ended slot = true
          · right
            obtain ⟨all, phase⟩ := Bool.and_eq_true_iff.mp isEnded
            refine ⟨rfl, slot, rfl, isEnded, of_decide_eq_true all, ?_⟩
            simp only [step, result, found, if_pos isEnded]
            cases isPhase : slot.task.phase with
            | closed pipe =>
                exact Or.inl ⟨⟨pipe, rfl⟩, rfl⟩
            | panicked message =>
                exact Or.inr ⟨⟨message, rfl⟩, rfl⟩
            | opening =>
                rw [isPhase] at phase
                cases phase
            | relaying pipe =>
                rw [isPhase] at phase
                cases phase
            | returned pipe exit =>
                rw [isPhase] at phase
                cases phase
          · left
            simp [step, result, found, isEnded]

/-- One event of a proxy. -/
theorem Isolated.step
    (valid : ∀ s ∈ config.scenarios, s.validate parseDuration = .ok ())
    {events : List SystemEvent}
    {s : System}
    (isolated : Isolated serverName sha256 parseDuration config events s)
    (event : SystemEvent) :
    Isolated serverName sha256 parseDuration config (events ++ [event])
      (s.step serverName sha256 parseDuration config event) := by
  -- An event at the wrong time changes nothing.
  have ignored
      (same : s.step serverName sha256 parseDuration config event = s)
      (nobody : s.result = none → accepts [event] = [])
      (untold : ∀ id, s.told id event = []) :
      Isolated serverName sha256 parseDuration config (events ++ [event])
        (s.step serverName sha256 parseDuration config event) := by
    rw [same]
    refine isolated.next same nobody rfl (fun running => running)
      isolated.tasks (fun _ member => member) (fun _ member => Or.inl member) ?_
    intro id client server slot serves
    exact ⟨slot, serves.still isolated.reached (untold id) serves.alone
      fun running => ⟨running, fun there => there⟩⟩
  cases event with
  | shutdown =>
      exact isolated.halt rfl fun _ => rfl
  | acceptFailed message =>
      exact isolated.halt rfl fun _ => rfl
  | accepted client server =>
      cases running : s.result with
      | none =>
          have accepted := isolated.accept running client server
          simp only [System.step, running, Option.isSome_none,
            Bool.false_eq_true, if_false]
          rw [running] at accepted
          exact accepted
      | some finish =>
          refine ignored ?_ (fun isNone => ?_) fun _ => rfl
          · simp [System.step, running]
          · rw [running] at isNone
            cases isNone
  | turn id event =>
      exact isolated.turn valid id event
  | writes id =>
      exact isolated.write valid id
  | joined id =>
      rcases joined_cases s id with
          ⟨same, -⟩ |
            ⟨running, slot, found, -, all, ⟨closed, stepped⟩ | ⟨-, stepped⟩⟩
      · exact ignored same (fun _ => rfl) fun _ => rfl
      · rw [stepped]
        refine isolated.remove stepped rfl (fun _ => rfl) fun _ =>
          ⟨running, slot, ?_, ?_, all, closed⟩
        · exact List.mem_of_find?_eq_some found
        · simpa using List.find?_some found
      · rw [stepped]
        exact isolated.remove stepped rfl (fun _ => rfl) fun isNone => by
          cases isNone
  | aborted id =>
      cases halted : s.result with
      | none =>
          refine ignored ?_ (fun _ => rfl) fun _ => rfl
          simp [System.step, halted]
      | some finish =>
          have stepped :
              s.step serverName sha256 parseDuration config (.aborted id) =
                { s with pool := s.pool.remove id, result := some finish } := by
            simp [System.step, halted]
          rw [stepped]
          exact isolated.remove stepped rfl (fun _ => rfl) fun isNone => by
            cases isNone

variable (serverName sha256)

/-- Every run of a proxy. -/
theorem isolated_run
    (valid : ∀ s ∈ config.scenarios, s.validate parseDuration = .ok ())
    (events : List SystemEvent) :
    Isolated serverName sha256 parseDuration config events
      (run serverName sha256 parseDuration config events) := by
  refine Machine.run_induction
    (motive := fun events s =>
      Isolated serverName sha256 parseDuration config events s) ?_ ?_ events
  · refine ⟨rfl, ⟨Nat.le_refl _, fun _ => rfl⟩, fun _ _ => rfl, ?_, ?_, ?_, ?_⟩
    · intro slot member
      cases member
    · intro id member
      cases member
    · intro r member
      cases member
    · intro id positive known
      exact absurd known (Nat.not_le_of_lt positive)
  · intro before event isolated
    exact isolated.step valid event

/-- What the trace holds of a connection. -/
theorem Serves.trace
    {events : List SystemEvent}
    {s : System}
    {id : Nat}
    {client : Client}
    {server : Upstream}
    {slot : Slot Task}
    (serves :
      Serves serverName sha256 parseDuration config events s id client server
        slot) :
    s.trace.filter (·.connection = id) =
      slot.task.records.take slot.written := by
  have log := serves.alone.log
  rw [serves.isId] at log
  exact log

/-- A connection the proxy has not accepted has no records. -/
theorem Isolated.unknown
    {events : List SystemEvent}
    {s : System}
    (isolated : Isolated serverName sha256 parseDuration config events s)
    {id : Nat}
    (unknown : ¬ (0 < id ∧ id ≤ s.nextId)) :
    s.trace.filter (·.connection = id) = [] := by
  rw [List.filter_eq_nil_iff]
  intro r member
  simp only [decide_eq_true_eq]
  rintro rfl
  exact unknown (isolated.logged r member)

variable (parseDuration config)

/--
Connections are isolated.  After every run of a proxy each of its connections is
the connection accepted under its number by itself, told what this run has told
it: the records of that number in the shared trace are the ones it has then
written, and the task, if it is there, is this one.  While `serve` runs, a task
that is no longer there has come to its end and written all its records.  No
record has a number the proxy has not given away.
-/
theorem connections_isolated
    (valid : ∀ s ∈ config.scenarios, s.validate parseDuration = .ok ())
    (events : List SystemEvent) :
    let s := run serverName sha256 parseDuration config events
    (∀ r ∈ s.trace, 0 < r.connection ∧ r.connection ≤ s.nextId) ∧
      ∀ id, 0 < id → id ≤ s.nextId →
        ∃ client server,
          (accepts events)[id - 1]? = some (client, server) ∧
            let slot :=
              solo serverName sha256 parseDuration config id client server
                (moves serverName sha256 parseDuration config id {} events)
            s.trace.filter (·.connection = id) =
                slot.task.records.take slot.written ∧
              slot.written ≤ slot.task.records.length ∧
              (∀ other ∈ s.pool.slots, other.id = id → other = slot) ∧
              (s.result = none →
                s.pool.present id = false →
                slot.written = slot.task.records.length ∧
                  ∃ pipe, slot.task.phase = .closed pipe) := by
  intro s
  have isolated := isolated_run serverName sha256 valid events
  refine ⟨isolated.logged, ?_⟩
  intro id positive known
  obtain ⟨client, server, slot, serves⟩ := isolated.serves id positive known
  refine ⟨client, server, serves.accepted, ?_⟩
  intro alone
  have isAlone : slot = alone := serves.isSolo
  rw [← isAlone]
  refine ⟨serves.trace, serves.alone.within, ?_, serves.joined⟩
  intro other member isId
  exact serves.alone.slot other member (isId.trans serves.isId.symm)

/-- The client that is cut off, and the one that gets its answer. -/
theorem connections_isolated_twoClients :
    let s := run (fun _ => true) sampleSha256 (fun _ => .ok 0) guarded twoClients
    let first :=
      solo (fun _ => true) sampleSha256 (fun _ => .ok 0) guarded 1 app
        Task.willing
        [.goes .opens, .writes, .goes (.wakes query), .writes, .writes,
          .goes .closes, .writes, .goes .closes, .writes]
    let second :=
      solo (fun _ => true) sampleSha256 (fun _ => .ok 0) guarded 2 guest
        Task.willing
        [.goes .opens, .writes, .goes (.wakes query), .writes, .writes, .writes,
          .goes (.wakes answer), .writes, .writes, .writes,
          .goes (.wakes (.poll .upstream)), .writes, .writes]
    s.trace.filter (·.connection = 1) = first.task.records ∧
      (∃ pipe, first.task.phase = .closed pipe) ∧
      s.trace.filter (·.connection = 2) = second.task.records.take 9 ∧
      s.pool.slots = [second] := by
  intro s first second
  have behind : s = _ := run_behind _
  have told (id : Nat) :
      moves (fun _ => true) sampleSha256 (fun _ => .ok 0) guarded id {}
          twoClients = _ :=
    moves_behind _ id
  have known : s.nextId = 2 := by
    rw [behind]
    decide +kernel
  have running : s.result = none := by
    rw [behind]
    decide +kernel
  have gone : s.pool.present 1 = false := by
    rw [behind]
    decide +kernel
  have left :
      s.pool.slots.map (fun slot => (slot.id, slot.written)) = [(2, 9)] := by
    rw [behind]
    decide +kernel
  have isolated :=
    (connections_isolated (fun _ => true) sampleSha256 (fun _ => .ok 0) guarded
      guarded_valid twoClients).2
  obtain ⟨client, server, isFirst, traced, -, -, joined⟩ :=
    isolated 1 (by decide) (by rw [known]; decide)
  cases isFirst
  rw [told 1] at traced joined
  obtain ⟨all, closed⟩ := joined running gone
  obtain ⟨client, server, isSecond, begun, -, there, -⟩ :=
    isolated 2 (by decide) (Nat.le_of_eq known.symm)
  cases isSecond
  rw [told 2] at begun there
  obtain ⟨slot, isOnly, isSlot⟩ := List.map_eq_singleton_iff.mp left
  have same : slot = second :=
    there slot (by rw [isOnly]; exact List.mem_singleton_self _)
      (congrArg Prod.fst isSlot)
  have wrote : second.written = 9 := by
    rw [← same]
    exact congrArg Prod.snd isSlot
  refine ⟨?_, closed, ?_, ?_⟩
  · rw [all, List.take_length] at traced
    exact traced
  · refine begun.trans ?_
    exact congrArg second.task.records.take wrote
  · rw [isOnly, same]

/--
The life of every connection is in the trace.  At every moment the records of a
number are in the order of `Stage`; and while `serve` runs, a connection that has
been joined has ended there, so its records are complete.
-/
theorem trace_orderly
    (valid : ∀ s ∈ config.scenarios, s.validate parseDuration = .ok ())
    (events : List SystemEvent)
    (id : Nat) :
    let s := run serverName sha256 parseDuration config events
    (Stage.fresh.behind
        (s.trace.filter (·.connection = id))).isSome = true ∧
      (s.result = none → 0 < id → id ≤ s.nextId →
        (∀ slot ∈ s.pool.slots, slot.id ≠ id) →
        Stage.fresh.behind (s.trace.filter (·.connection = id)) =
          some .ended) := by
  intro s
  have isolated := isolated_run serverName sha256 valid events
  by_cases known : 0 < id ∧ id ≤ s.nextId
  · obtain ⟨client, server, slot, serves⟩ :=
      isolated.serves id known.1 known.2
    obtain ⟨stage, reached, decides⟩ :=
      (serves.good.2.stands.orderly valid).stage
    rw [serves.trace]
    refine ⟨?_, ?_⟩
    · refine Stage.isSome_behind_of_prefix (List.take_prefix _ _) ?_
      rw [reached]
      rfl
    · intro running _ _ away
      obtain ⟨all, closed⟩ :=
        serves.joined running (Pool.not_present_iff.mpr away)
      rw [all, List.take_length, reached, decides.mpr closed]
  · have nothing := isolated.unknown serverName sha256 known
    refine ⟨?_, fun _ positive within => absurd ⟨positive, within⟩ known⟩
    rw [nothing]
    rfl

theorem trace_orderly_twoClients :
    let s := run (fun _ => true) sampleSha256 (fun _ => .ok 0) guarded twoClients
    Stage.fresh.behind (s.trace.filter (·.connection = 1)) = some .ended ∧
      (Stage.fresh.behind (s.trace.filter (·.connection = 2))).isSome =
        true := by
  intro s
  have behind : s = _ := run_behind _
  have orderly :=
    trace_orderly (fun _ => true) sampleSha256 (fun _ => .ok 0) guarded
      guarded_valid twoClients
  refine ⟨(orderly 1).2 ?_ (by decide) ?_ ?_, (orderly 2).1⟩
  · rw [show run _ _ _ _ _ = _ from behind]
    decide +kernel
  · rw [show run _ _ _ _ _ = _ from behind]
    decide +kernel
  · rw [show run _ _ _ _ _ = _ from behind]
    decide +kernel

/-! ## The accept loop -/

/-- The tasks of a pool as the accept loop knows them. -/
def clients (p : Pool Task Record) : List (Nat × Client) :=
  p.slots.map fun slot => (slot.id, slot.task.client)

/-- The accept loop of a proxy against `serve` on its own. -/
structure Simulates (s : System) (p : Proxy) : Prop where
  nextId : p.nextId = s.nextId
  result : p.result = s.result
  tasks : s.result = none → p.tasks = clients s.pool
  nodup : (s.pool.slots.map Slot.id).Nodup

theorem taskStep_client (t : Task) (event : TaskEvent) :
    (taskStep serverName sha256 parseDuration config t event).client =
      t.client := by
  unfold taskStep Task.step
  split
  · exact (Task.opens_keeps serverName config t).2.1
  · rfl
  · rfl
  · rfl

theorem clients_advance
    (p : Pool Task Record)
    (id : Nat)
    (event : TaskEvent) :
    clients
        (p.advance (taskStep serverName sha256 parseDuration config)
          Task.records id event) =
      clients p := by
  rw [clients, Pool.advance, List.map_map]
  refine List.map_congr_left ?_
  intro slot _
  simp only [Function.comp_apply]
  split
  · rw [taskStep_client]
  · rfl

theorem clients_write (p : Pool Task Record) (id : Nat) :
    clients (p.write Task.records id) = clients p := by
  rcases Pool.write_cases Task.records p id with
      same | ⟨-, -, -, record, -, written⟩
  · rw [same]
  · rw [written, clients, List.map_map]
    refine List.map_congr_left ?_
    intro slot _
    simp only [Function.comp_apply]
    split <;> rfl

/-- Taking out the one task with a number. -/
theorem clients_remove
    {p : Pool Task Record}
    (nodup : (p.slots.map Slot.id).Nodup)
    {id : Nat}
    {slot : Slot Task}
    (found : p.find? id = some slot) :
    (clients p)[p.slots.findIdx (·.id = id)]? = some (id, slot.task.client) ∧
      (clients p).eraseIdx (p.slots.findIdx (·.id = id)) =
        clients (p.remove id) := by
  obtain ⟨isId, before, after, shape, others⟩ :=
    List.find?_eq_some_iff_append.mp found
  simp only [decide_eq_true_eq] at isId
  rw [shape, List.map_append, List.map_cons, List.nodup_append] at nodup
  have behind : ∀ other ∈ after, other.id ≠ id := by
    intro other member same
    refine (List.nodup_cons.mp nodup.2.1).1 ?_
    rw [isId, ← same]
    exact List.mem_map_of_mem member
  have kept {slots : List (Slot Task)} (away : ∀ x ∈ slots, x.id ≠ id) :
      slots.filter (·.id ≠ id) = slots :=
    List.filter_eq_self.mpr fun x member => decide_eq_true (away x member)
  have left :
      p.slots.filter (·.id ≠ id) = before ++ after := by
    rw [shape, List.filter_append, List.filter_cons_of_neg (by simp [isId]),
      kept behind, kept fun x member => by simpa using others x member]
  have place : p.slots.findIdx (·.id = id) = before.length := by
    have inFront : before.findIdx (·.id = id) = before.length :=
      List.findIdx_eq_length_of_false fun x member => by
        simpa using others x member
    rw [shape, List.findIdx_append, inFront, if_neg (Nat.lt_irrefl _),
      List.findIdx_cons]
    simp [isId]
  rw [place]
  refine ⟨?_, ?_⟩
  · rw [clients, shape, ← isId]
    simp
  · rw [clients, clients, Pool.remove, left, shape]
    simp [List.eraseIdx_append_of_length_le]

/-- An accept loop that has ended takes no notice. -/
theorem proxy_of_ended
    {acceptor : Bool}
    {cancel : Bytes → Except String Unit}
    {p : Proxy}
    (ended : p.result.isSome = true)
    (seen : List ServeEvent) :
    Machine.run (Proxy.step acceptor cancel) p seen = p :=
  Machine.run_induction (motive := fun _ q => q = p) rfl
    (fun _ event same => by
      rw [same]
      exact if_pos ended) seen

/-- One event of a proxy, as the accept loop sees it. -/
theorem Simulates.step
    (cancel : Bytes → Except String Unit)
    {events : List SystemEvent}
    {s : System}
    (isolated : Isolated serverName sha256 parseDuration config events s)
    {p : Proxy}
    (simulates : Simulates s p)
    (event : SystemEvent) :
    Simulates (s.step serverName sha256 parseDuration config event)
      (Machine.run (Proxy.step config.acceptor cancel) p (s.sees event)) := by
  obtain ⟨nextId, result, tasks, nodup⟩ := simulates
  -- Some events are none of the accept loop's business.
  have unseen {t : System}
      (nothing :
        Machine.run (Proxy.step config.acceptor cancel) p (s.sees event) = p)
      (sameId : t.nextId = s.nextId)
      (sameResult : t.result = s.result)
      (sameTasks : s.result = none → clients t.pool = clients s.pool)
      (sameSlots :
        (t.pool.slots.map Slot.id).Nodup) :
      Simulates t
        (Machine.run (Proxy.step config.acceptor cancel) p (s.sees event)) := by
    rw [nothing]
    refine ⟨nextId.trans sameId.symm, result.trans sameResult.symm, ?_,
      sameSlots⟩
    intro running
    rw [sameResult] at running
    rw [sameTasks running]
    exact tasks running
  have stops {last : ServeEvent} {finish : ServeEnd}
      (sameId : (p.step config.acceptor cancel last).nextId = p.nextId)
      (ends :
        (p.step config.acceptor cancel last).result =
          p.result.or (some finish)) :
      Simulates { s with result := s.result.or (some finish) }
        (Machine.run (Proxy.step config.acceptor cancel) p [last]) := by
    refine ⟨sameId.trans nextId, ?_, ?_, nodup⟩
    · rw [Machine.run_cons, Machine.run_nil, ends, result]
    · intro running
      cases found : s.result <;> simp [found] at running
  have halts (finish : ServeEnd) (halted : s.result = some finish) :
      Machine.run (Proxy.step config.acceptor cancel) p (s.sees event) = p :=
    proxy_of_ended (by rw [result, halted]; rfl) _
  cases event with
  | shutdown =>
      refine stops ?_ ?_ <;>
        cases found : p.result <;> simp [Proxy.step, found]
  | acceptFailed message =>
      refine stops ?_ ?_ <;>
        cases found : p.result <;> simp [Proxy.step, found]
  | accepted client server =>
      cases halted : s.result with
      | none =>
          rw [halted] at result
          refine ⟨?_, ?_, ?_, ?_⟩
          · simp [sees, Proxy.step, result, nextId, System.step, halted]
          · simp [sees, Proxy.step, result, System.step, halted]
          · intro _
            simp [sees, Proxy.step, result, System.step, halted, tasks halted,
              clients, Pool.spawn, Task.accepted, nextId]
          · simp only [System.step, halted, Option.isSome_none,
              Bool.false_eq_true, if_false, Pool.spawn, List.map_append,
              List.map_cons, List.map_nil]
            refine List.nodup_append.mpr ⟨nodup, by simp, ?_⟩
            intro id member other isNew same
            have known := (isolated.slots id member).2
            rw [same, List.mem_singleton.mp isNew] at known
            omega
      | some finish =>
          have same :
              s.step serverName sha256 parseDuration config
                  (.accepted client server) = s := by
            simp [System.step, halted]
          rw [same]
          exact unseen (halts finish halted) rfl rfl (fun _ => rfl) nodup
  | turn id event =>
      refine unseen rfl rfl rfl ?_ ?_
      · exact fun _ =>
          clients_advance serverName sha256 parseDuration config s.pool id event
      · simp only [System.step, Pool.map_id_advance]
        exact nodup
  | writes id =>
      refine unseen rfl rfl rfl (fun _ => clients_write s.pool id) ?_
      simp only [System.step, Pool.map_id_write]
      exact nodup
  | joined id =>
      rcases joined_cases s id with
          ⟨same, halted | unended⟩ | ⟨running, slot, found, isEnded, -, joins⟩
      · obtain ⟨finish, isFinish⟩ := Option.isSome_iff_exists.mp halted
        rw [same]
        exact unseen (halts finish isFinish) rfl rfl (fun _ => rfl) nodup
      · rw [same]
        exact unseen (by simp [sees, unended]) rfl rfl (fun _ => rfl) nodup
      · have sees :
            s.sees (.joined id) =
              [.joined (s.pool.slots.findIdx (·.id = id))] := by
          simp [sees, found, isEnded]
        obtain ⟨isAt, erased⟩ := clients_remove nodup found
        rw [← tasks running] at isAt erased
        have isSlot := List.mem_of_find?_eq_some found
        have sound := (isolated.tasks slot isSlot).2
        have left : ((s.pool.remove id).slots.map Slot.id).Nodup :=
          nodup.sublist (List.filter_sublist.map _)
        have halts := opening_panics config.acceptor cancel slot.task.client
        rw [← opening_panics config.acceptor (Task.cancel slot.task.server)]
          at halts
        rw [running] at result
        rw [sees]
        generalize s.pool.slots.findIdx (·.id = id) = place at isAt erased ⊢
        rcases joins with
            ⟨⟨pipe, closed⟩, stepped⟩ | ⟨⟨message, panicked⟩, stepped⟩
        · have calm :
              ¬ (opening config.acceptor cancel slot.task.client).panics =
                true := by
            rw [halts]
            exact sound.calm (by simp [closed]) (by simp [closed])
          rw [stepped]
          refine ⟨?_, ?_, ?_, left⟩
          · simp [Proxy.step, result, isAt, nextId]
          · simp [Proxy.step, result, isAt, calm]
          · intro _
            simp [Proxy.step, result, isAt, erased]
        · have panics :
              (opening config.acceptor cancel slot.task.client).panics =
                true := by
            rw [halts]
            rcases sound.opens with isOpening | decided
            · rw [panicked] at isOpening
              cases isOpening
            · exact decided.mp ⟨message, panicked⟩
          rw [stepped]
          refine ⟨?_, ?_, ?_, left⟩
          · simp [Proxy.step, result, isAt, nextId]
          · simp [Proxy.step, result, isAt, panics]
          · intro isNone
            cases isNone
  | aborted id =>
      cases halted : s.result with
      | none =>
          have same :
              s.step serverName sha256 parseDuration config (.aborted id) =
                s := by
            simp [System.step, halted]
          rw [same]
          exact unseen rfl rfl rfl (fun _ => rfl) nodup
      | some finish =>
          refine unseen rfl ?_ ?_ (fun running => by simp [halted] at running) ?_
          · simp [System.step, halted]
          · simp [System.step, halted]
          · simp only [System.step, halted, Option.isSome_some, if_true]
            exact nodup.sublist (List.filter_sublist.map _)

/-- Every run of a proxy, as the accept loop sees it. -/
theorem simulates_run
    (valid : ∀ s ∈ config.scenarios, s.validate parseDuration = .ok ())
    (cancel : Bytes → Except String Unit)
    (events : List SystemEvent) :
    Simulates (run serverName sha256 parseDuration config events)
      (Proxy.serve config.acceptor cancel
        (seen serverName sha256 parseDuration config {} events)) := by
  refine Machine.run_induction
    (motive := fun events s =>
      Simulates s
        (Proxy.serve config.acceptor cancel
          (seen serverName sha256 parseDuration config {} events))) ?_ ?_ events
  · exact ⟨rfl, rfl, fun _ => rfl, List.nodup_nil⟩
  · intro before event simulates
    have isolated := isolated_run serverName sha256 valid before
    have last (s : System) :
        seen serverName sha256 parseDuration config s [event] =
          s.sees event :=
      List.append_nil _
    rw [seen_append, last, Proxy.serve, Machine.run_append]
    exact simulates.step serverName sha256 parseDuration config cancel isolated
      event

/-- A connection keeps its client. -/
theorem Serves.client
    {events : List SystemEvent}
    {s : System}
    {id : Nat}
    {client : Client}
    {server : Upstream}
    {slot : Slot Task}
    (serves :
      Serves serverName sha256 parseDuration config events s id client server
        slot) :
    slot.task.client = client := by
  rw [serves.isSolo]
  refine Machine.run_induction
    (motive := fun _ (slot : Slot Task) => slot.task.client = client) rfl
    (fun moved m same => ?_) _
  cases m with
  | goes event =>
      simp only [Pool.move]
      split
      · exact (taskStep_client serverName sha256 parseDuration config _
          event).trans same
      · exact same
  | writes =>
      simp only [Pool.move]
      split <;> exact same

/-- The client of a task is the one that was accepted. -/
theorem Isolated.client_of_slot
    {events : List SystemEvent}
    {s : System}
    (isolated : Isolated serverName sha256 parseDuration config events s)
    {slot : Slot Task}
    (member : slot ∈ s.pool.slots) :
    ∃ server,
      (accepts events)[slot.id - 1]? = some (slot.task.client, server) := by
  obtain ⟨positive, known⟩ :=
    isolated.slots slot.id (List.mem_map_of_mem member)
  obtain ⟨client, server, found, serves⟩ :=
    isolated.serves slot.id positive known
  have isSlot := serves.alone.slot slot member serves.isId.symm
  refine ⟨server, ?_⟩
  rw [show slot.task.client = client from isSlot ▸ serves.client]
  exact serves.accepted

/-- A panic of a task goes back to its client. -/
theorem joinError_blames
    (valid : ∀ s ∈ config.scenarios, s.validate parseDuration = .ok ())
    (events : List SystemEvent)
    (id : Nat)
    (ended :
      (run serverName sha256 parseDuration config events).result =
        some (.joinError id)) :
    config.acceptor = true ∧
      ∃ client server,
        (accepts events)[id - 1]? = some (client, server) ∧
          RequestsSsl 2 client.bytes := by
  revert ended
  refine Machine.run_induction
    (motive := fun events (s : System) =>
      s.result = some (.joinError id) →
      config.acceptor = true ∧
        ∃ client server,
          (accepts events)[id - 1]? = some (client, server) ∧
            RequestsSsl 2 client.bytes) ?_ ?_ events
  · intro ended
    cases ended
  · intro before event inductionHypothesis ended
    have isolated := isolated_run serverName sha256 valid before
    rw [run] at isolated
    generalize
      Machine.run (step serverName sha256 parseDuration config) {} before = s
        at inductionHypothesis ended isolated
    have earlier (old : s.result = some (.joinError id)) :
        config.acceptor = true ∧
          ∃ client server,
            (accepts (before ++ [event]))[id - 1]? = some (client, server) ∧
              RequestsSsl 2 client.bytes := by
      obtain ⟨isSet, client, server, isAt, asked⟩ := inductionHypothesis old
      refine ⟨isSet, client, server, ?_, asked⟩
      rw [accepts_append,
        List.getElem?_append_left (List.getElem?_eq_some_iff.mp isAt).1]
      exact isAt
    have halted {finish : ServeEnd} (other : ∀ id, finish ≠ .joinError id)
        (isEnd : s.result.or (some finish) = some (.joinError id)) :
        s.result = some (.joinError id) := by
      cases found : s.result with
      | some old =>
          rw [found] at isEnd
          exact isEnd
      | none =>
          rw [found] at isEnd
          exact absurd (Option.some.inj isEnd) (other id)
    cases event with
    | shutdown =>
        exact earlier (halted (by simp) ended)
    | acceptFailed message =>
        exact earlier (halted (by simp) ended)
    | accepted client server =>
        refine earlier ?_
        simp only [step] at ended
        split at ended <;> exact ended
    | turn other event =>
        exact earlier ended
    | writes other =>
        exact earlier ended
    | joined other =>
        rcases joined_cases s other with
            ⟨same, -⟩ | ⟨running, slot, found, -, -, ⟨-, stepped⟩ |
              ⟨⟨message, panicked⟩, stepped⟩⟩
        · rw [same] at ended
          exact earlier ended
        · rw [stepped] at ended
          cases ended
        · rw [stepped] at ended
          cases ended
          have isSlot := List.mem_of_find?_eq_some found
          have isId : slot.id = id := by
            simpa using List.find?_some found
          obtain ⟨server, isAt⟩ :=
            isolated.client_of_slot serverName sha256 parseDuration config
              isSlot
          rcases (isolated.tasks slot isSlot).2.opens with isOpening | decided
          · rw [panicked] at isOpening
            cases isOpening
          · obtain ⟨isSet, asked⟩ :=
              (opening_panics _ _ _).mp (decided.mp ⟨message, panicked⟩)
            refine ⟨isSet, slot.task.client, server, ?_, asked⟩
            rw [accepts_append, ← isId,
              List.getElem?_append_left (List.getElem?_eq_some_iff.mp isAt).1]
            exact isAt
    | aborted other =>
        refine earlier ?_
        simp only [step] at ended
        split at ended <;> exact ended

/--
The proxy refines its accept loop.  Whatever its connections do, the numbers it
gives away, the tasks it has and the way it ends are those of `serve` on the
accepts, the ends and the effective joins of this run; and a connection whose join
ends it is one whose client has asked for encryption twice while TLS is
configured.
-/
theorem system_refines_serve
    (valid : ∀ s ∈ config.scenarios, s.validate parseDuration = .ok ())
    (cancel : Bytes → Except String Unit)
    (events : List SystemEvent) :
    let s := run serverName sha256 parseDuration config events
    let p :=
      Proxy.serve config.acceptor cancel
        (seen serverName sha256 parseDuration config {} events)
    p.nextId = s.nextId ∧ p.result = s.result ∧
      (s.result = none → p.tasks = clients s.pool) ∧
      ∀ id, s.result = some (.joinError id) →
        config.acceptor = true ∧
          ∃ client server,
            (accepts events)[id - 1]? = some (client, server) ∧
              RequestsSsl 2 client.bytes := by
  intro s p
  have simulates :=
    simulates_run serverName sha256 parseDuration config valid cancel events
  exact ⟨simulates.nextId, simulates.result, simulates.tasks,
    joinError_blames serverName sha256 parseDuration config valid events⟩

theorem system_refines_serve_twoClients :
    let s := run (fun _ => true) sampleSha256 (fun _ => .ok 0) guarded twoClients
    let p :=
      Proxy.serve true (fun _ => .ok ())
        [.accepted app, .accepted guest, .joined 0]
    p.nextId = s.nextId ∧ p.result = s.result ∧
      (s.result = none → p.tasks = clients s.pool) := by
  intro s p
  obtain ⟨nextId, result, tasks, -⟩ :=
    system_refines_serve (fun _ => true) sampleSha256 (fun _ => .ok 0) guarded
      guarded_valid (fun _ => .ok ()) twoClients
  rw [twoClients, seen_behind] at nextId result tasks
  exact ⟨nextId, result, tasks⟩

end

end System

end Pgfault
