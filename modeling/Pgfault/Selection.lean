import Pgfault.SharedTrace

namespace Pgfault

open ConnectionState

/-!
# Whom faults reach

A scenario may select connections: by the user and the database of their startup
packet and by their number.  The observer stamps its events with what the startup
packet said, and the server cannot change these parameters.  So in a proxy with
any number of clients a fault reaches the connections its scenario selects, and
each of them at most once (`faults_confined`).
-/

/-- The connections the selectors of a scenario name. -/
structure Scenario.Picks
    (s : Scenario)
    (id : Nat)
    (startup : StartupMetadata) : Prop where
  user : ∀ user ∈ s.selector.user, startup.user = some user
  database : ∀ database ∈ s.selector.database, startup.database = some database
  ordinal : ∀ ordinal ∈ s.selector.connectionOrdinal, id = ordinal

/-- A selected event is of a connection that is named. -/
theorem Scenario.picks_of_selects
    {s : Scenario}
    {e : Event}
    {id : Nat}
    {startup : StartupMetadata}
    (selected : s.selects e = true)
    (connectionId : e.connectionId = id)
    (user : e.startup.user = startup.user)
    (database : e.startup.database = startup.database) :
    s.Picks id startup := by
  simp only [selects, Bool.and_eq_true] at selected
  obtain ⟨⟨⟨⟨⟨⟨⟨⟨⟨-, isUser⟩, isDatabase⟩, isOrdinal⟩, -⟩, -⟩, -⟩, -⟩, -⟩, -⟩ :=
    selected
  refine ⟨?_, ?_, ?_⟩
  · intro name named
    rw [Option.mem_def.mp named] at isUser
    rw [← user]
    simpa using isUser
  · intro name named
    rw [Option.mem_def.mp named] at isDatabase
    rw [← database]
    simpa using isDatabase
  · intro ordinal named
    rw [Option.mem_def.mp named] at isOrdinal
    rw [← connectionId]
    simpa using isOrdinal

/-! ## The events of a connection -/

namespace ConnectionState

/-- Every event names the user and the database the connection started with. -/
theorem startup_of_raisedBy
    {sha256 : Bytes → String}
    {s : ConnectionState}
    {calls : List Call}
    {e : Event}
    (member : e ∈ s.raisedBy sha256 calls) :
    e.startup.user = s.startup.user ∧
      e.startup.database = s.startup.database := by
  induction calls generalizing s with
  | nil =>
      simp [raisedBy] at member
  | cons call rest inductionHypothesis =>
      rcases List.mem_append.mp member with now | later
      · rw [(History.called_identity now).2]
        exact ⟨rfl, rfl⟩
      · have keeps := called_keeps sha256 s call
        obtain ⟨user, database⟩ := inductionHypothesis later
        exact ⟨user.trans keeps.user, database.trans keeps.database⟩

end ConnectionState

/-! ## The faults of a loop -/

/-- The faults of a connection: for those it names, and each at most once. -/
structure Confined
    (scenarios : List Scenario)
    (picked : Scenario → Prop)
    (records : List Record) : Prop where
  once : ((Trace.faults records).map Prod.snd).Subperm scenarios
  picks : ∀ e s, .fault e s ∈ records → picked s

theorem confined_nil (scenarios : List Scenario) (picked : Scenario → Prop) :
    Confined scenarios picked [] where
  once := List.nil_subperm
  picks := fun e s member => by simp at member

/-- A record that is no fault does not matter. -/
theorem Confined.lifecycle
    {scenarios : List Scenario}
    {picked : Scenario → Prop}
    {records : List Record}
    (confined : Confined scenarios picked records)
    (id : Nat)
    (event detail : String) :
    Confined scenarios picked (records ++ [.lifecycle id event detail]) where
  once := by
    have silent : Trace.faults [.lifecycle id event detail] = [] := rfl
    rw [Trace.faults_append, silent, List.append_nil]
    exact confined.once
  picks := by
    intro e s member
    rcases List.mem_append.mp member with old | isLast
    · exact confined.picks e s old
    · simp at isLast

/-- Part of the records has part of the faults. -/
theorem Confined.of_initial
    {scenarios : List Scenario}
    {picked : Scenario → Prop}
    {records part : List Record}
    (confined : Confined scenarios picked records)
    (isPart : part <+: records) :
    Confined scenarios picked part where
  once := by
    obtain ⟨rest, rfl⟩ := isPart
    have fewer := confined.once
    rw [Trace.faults_append, List.map_append] at fewer
    exact (List.sublist_append_left _ _).subperm.trans fewer
  picks := fun e s member => confined.picks e s (isPart.subset member)

theorem Relay.confined_run
    (sha256 : Bytes → String)
    {parseDuration : String → Except String Nat}
    (id : Nat)
    (startup : StartupMetadata)
    {scenarios : List Scenario}
    (valid : ∀ s ∈ scenarios, s.validate parseDuration = .ok ())
    (inputs : List Input) :
    Confined scenarios (·.Picks id startup)
      ((start id startup scenarios).run sha256 parseDuration
        inputs).trace := by
  have genuine :=
    (sourced_run sha256 parseDuration id startup scenarios inputs).trace
  obtain ⟨calls, ending, ends, told⟩ :=
    tells_start sha256 parseDuration id startup valid inputs
  have recorded := told.faults sha256 parseDuration id startup valid ends
  have read := (told.explained sha256 parseDuration id startup valid ends).1
  generalize
    (start id startup scenarios).run sha256 parseDuration inputs = r at *
  refine ⟨?_, ?_⟩
  · rw [recorded]
    exact Trace.audit_subperm scenarios _
  · intro e s fault
    have due := fault
    rw [← Trace.mem_faults, recorded] at due
    obtain ⟨j, isAt, -⟩ := Trace.mem_faults_audit due
    rw [read] at isAt
    have raised := List.mem_of_getElem? isAt
    obtain ⟨user, database⟩ := startup_of_raisedBy raised
    exact Scenario.picks_of_selects (genuine e s fault).selected
      (connectionId_of_raisedBy raised) user database

/-! ## The faults of a proxy -/

namespace Task

variable {sha256 : Bytes → String} {parseDuration : String → Except String Nat}
variable {config : Config}

/-- The faults of a task are for the startup packet of its client. -/
theorem Stands.confined
    (valid : ∀ s ∈ config.scenarios, s.validate parseDuration = .ok ())
    {t : Task}
    {phase : Phase}
    {records : List Record}
    (stands : Stands sha256 parseDuration config t phase records) :
    Confined config.scenarios
      (fun s =>
        ∃ packet startup,
          Started config t packet startup ∧ s.Picks t.id startup)
      records := by
  have loop {pipe : Pipe} (runs : Runs sha256 parseDuration config t pipe) :
      Confined config.scenarios
        (fun s =>
          ∃ packet startup,
            Started config t packet startup ∧ s.Picks t.id startup)
        pipe.relay.trace := by
    obtain ⟨packet, startup, wakes, started, rfl⟩ := runs
    obtain ⟨inputs, refines⟩ :=
      Pipe.refines_run sha256 parseDuration t.id startup config.scenarios wakes
    rw [refines.relay]
    obtain ⟨once, picks⟩ :=
      Relay.confined_run sha256 t.id startup valid inputs
    exact ⟨once, fun e s fault => ⟨packet, startup, started, picks e s fault⟩⟩
  have close {before : List Record} {picked : Scenario → Prop}
      (confined : Confined config.scenarios picked before)
      (exit : Exit) :
      Confined config.scenarios picked
        (before ++ Connection.closed t.id (some exit)) := by
    cases exit <;> exact confined.lifecycle _ _ _
  induction stands with
  | opening =>
      exact confined_nil _ _
  | panicked message =>
      exact confined_nil _ _
  | refused message =>
      exact confined_nil _ _
  | cancelled =>
      exact (confined_nil _ _).lifecycle _ _ _
  | dismissed stood inductionHypothesis =>
      exact close inductionHypothesis _
  | relaying runs running =>
      exact loop runs
  | left runs exited =>
      exact loop runs
  | closed runs exited =>
      exact close (loop runs) _

end Task

namespace System

/--
Faults are confined.  Whatever a proxy and its clients do, a fault recorded for a
connection is of a scenario that names it: the startup packet this client sent,
behind its requests for encryption, has the user and the database the scenario
selects, and the number of the connection is the one it selects.  No connection
meets a scenario more often than the scenario is listed.
-/
theorem faults_confined
    (serverName : String → Bool)
    (sha256 : Bytes → String)
    (parseDuration : String → Except String Nat)
    (config : Config)
    (valid : ∀ s ∈ config.scenarios, s.validate parseDuration = .ok ())
    (events : List SystemEvent)
    (id : Nat) :
    let own :=
      (run serverName sha256 parseDuration config events).trace.filter
        (·.connection = id)
    ((Trace.faults own).map Prod.snd).Subperm config.scenarios ∧
      ∀ e scenario, .fault e scenario ∈ own →
        ∃ (client : Client) (server : Upstream)
          (requests : List EncryptionRequest) (packet rest : Bytes)
          (startup : StartupMetadata),
          (accepts events)[id - 1]? = some (client, server) ∧
            client.bytes =
              requests.flatMap EncryptionRequest.packet ++ (packet ++ rest) ∧
            IsPacket packet PROTOCOL_V3 ∧
            metadata packet = .value startup ∧
            scenario.Picks id startup := by
  intro own
  have isolated := isolated_run serverName sha256 valid events
  by_cases known :
      0 < id ∧
        id ≤ (run serverName sha256 parseDuration config events).nextId
  · obtain ⟨client, server, slot, serves⟩ :=
      isolated.serves id known.1 known.2
    have isPart : own <+: slot.task.records := by
      rw [show own = _ from serves.trace]
      exact List.take_prefix _ _
    have confined :=
      (serves.good.2.stands.confined valid).of_initial isPart
    refine ⟨confined.once, ?_⟩
    intro e scenario fault
    obtain ⟨packet, startup, started, picks⟩ := confined.picks e scenario fault
    obtain ⟨requests, rest, bytes, -⟩ := started.bytes
    rw [serves.client] at bytes
    rw [serves.good.1] at picks
    exact ⟨client, server, requests, packet, rest, startup, serves.accepted,
      bytes, started.isPacket, started.metadata, picks⟩
  · have nothing : own = [] := isolated.unknown serverName sha256 known
    rw [nothing]
    exact ⟨List.nil_subperm, fun e scenario fault => by simp at fault⟩

/-- The fault of the client that was cut off. -/
theorem faults_confined_twoClients :
    let own (id : Nat) :=
      (run (fun _ => true) sampleSha256 (fun _ => .ok 0) guarded
        twoClients).trace.filter (·.connection = id)
    Trace.faults (own 1) = [(firstQuery 1 "app" "query.received", cutApp)] ∧
      Trace.faults (own 2) = [] ∧
      ((Trace.faults (own 1)).map Prod.snd).Subperm guarded.scenarios ∧
      ∃ (client : Client) (server : Upstream)
        (requests : List EncryptionRequest) (packet rest : Bytes)
        (startup : StartupMetadata),
        (accepts twoClients)[0]? = some (client, server) ∧
          client.bytes =
            requests.flatMap EncryptionRequest.packet ++ (packet ++ rest) ∧
          IsPacket packet PROTOCOL_V3 ∧
          metadata packet = .value startup ∧
          cutApp.Picks 1 startup := by
  intro own
  have first :
      Trace.faults (own 1) =
        [(firstQuery 1 "app" "query.received", cutApp)] := by
    simp only [own, trace_twoClients]
    decide +kernel
  have second : Trace.faults (own 2) = [] := by
    simp only [own, trace_twoClients]
    decide +kernel
  obtain ⟨once, reached⟩ :=
    faults_confined (fun _ => true) sampleSha256 (fun _ => .ok 0) guarded
      guarded_valid twoClients 1
  refine ⟨first, second, once, ?_⟩
  refine reached (firstQuery 1 "app" "query.received") cutApp ?_
  rw [← Trace.mem_faults, show Trace.faults _ = _ from first]
  exact List.mem_singleton_self _

end System

end Pgfault
