import Pgfault.NegotiationGrammar
import Pgfault.Pipe
import Pgfault.Replay

namespace Pgfault

/-!
# One connection from accept to close

`Task` is the task `serve` spawns for an accepted client: the negotiation, the
connection to the server, the loop, and the record of its end.  What happens
outside the proxy is a parameter: what the client sends, whether the server can
be reached and takes TLS, and when the sockets wake the loop.

Writes are listed with the layer they went through, so that what a server gets in
the clear can be told from what it gets through TLS.  The operations of the loop
succeed here, as they do in `Relay.step`.
-/

/-- What a connection uses of the options of the proxy. -/
structure Config where
  /-- The address of the server. -/
  upstream : String
  scenarios : List Scenario
  /-- Whether `tls.frontend` is set. -/
  acceptor : Bool
  /-- Whether `tls.upstream` is set. -/
  connector : Bool

/-- How the server side answers when a connection is opened. -/
structure Upstream where
  /-- `TcpStream::connect`. -/
  connect : Except String Unit
  /-- Whether these bytes can be written before the loop. -/
  write : Bytes → Except String Unit
  /-- The byte that answers an `SSLRequest`. -/
  reply : Except String UInt8
  /-- The TLS handshake. -/
  handshake : Except String Unit

/-- Bytes written to the server, and the layer they went through. -/
structure Write where
  layer : Stream
  bytes : Bytes
  deriving DecidableEq

/-- The host of an address: what stands before its last colon. -/
def hostOf (address : String) : String :=
  if ':' ∈ address.toList then
    String.ofList (address.toList.reverse.dropWhile (· ≠ ':')).tail.reverse
  else
    address

section

variable (serverName : String → Bool)

/-- Send the startup packet through a layer, behind what was written before. -/
def sendStartup
    (server : Upstream)
    (packet : Bytes)
    (before : List Write)
    (layer : Stream) : List Write × Except String Stream :=
  match server.write packet with
  | .error message => (before, .error message)
  | .ok () => (before ++ [⟨layer, packet⟩], .ok layer)

/-- Ask the server for TLS. -/
def upgrade (config : Config) (server : Upstream) : Except String Unit :=
  match server.reply with
  | .error _ => .error "reading upstream SSLRequest reply"
  | .ok reply =>
      if reply ≠ 83 then
        .error "upstream does not support TLS (--upstream-tls was set)"
      else if serverName (hostOf config.upstream) then
        match server.handshake with
        | .error _ => .error "TLS handshake with upstream failed"
        | .ok () => .ok ()
      else
        .error
          ("invalid upstream host for TLS SNI: " ++ hostOf config.upstream)

/-- Reach the server and send it the startup packet. -/
def dial
    (config : Config)
    (server : Upstream)
    (packet : Bytes) : List Write × Except String Stream :=
  match server.connect with
  | .error _ => ([], .error "connecting upstream")
  | .ok () =>
      if config.connector then
        match server.write EncryptionRequest.ssl.packet with
        | .error message => ([], .error message)
        | .ok () =>
            let request : Write := ⟨.plain, EncryptionRequest.ssl.packet⟩
            match upgrade serverName config server with
            | .error message => ([request], .error message)
            | .ok () => sendStartup server packet [request] .tls
      else
        sendStartup server packet [] .plain

/-- Where the task of a connection is. -/
inductive Phase where
  | opening
  | relaying (pipe : Pipe)
  /-- `connection` has returned, from the loop or before it. -/
  | returned (pipe : Option Pipe) (exit : Exit)
  /-- The end has been recorded. -/
  | closed (pipe : Option Pipe)
  | panicked (message : String)

namespace Phase

/-- The loop of a task that has come to it. -/
def pipe : Phase → Option Pipe
  | .relaying pipe => some pipe
  | .returned pipe _ => pipe
  | .closed pipe => pipe
  | _ => none

end Phase

/-- The task of one accepted client. -/
structure Task where
  id : Nat
  client : Client
  server : Upstream
  phase : Phase := .opening
  /-- What the negotiation has written to the client. -/
  replies : Bytes := []
  /-- What was written to the server before the loop. -/
  opened : List Write := []
  /-- The layer the loop writes to the server through. -/
  layer : Stream := .plain
  records : List Record := []

/-- What makes a task go on. -/
inductive TaskEvent where
  | opens
  | wakes (wake : Wake)
  | closes

namespace Task

/-- Forward a cancellation: reach the server and write the packet. -/
def cancel (server : Upstream) (packet : Bytes) : Except String Unit := do
  server.connect
  server.write packet

/--
The forwarded cancellation: the sixteen bytes behind the requests for encryption,
which have eight bytes and got one byte each.
-/
def cancelPacket (client : Client) (replies : Bytes) : Bytes :=
  (client.bytes.drop (8 * replies.length)).take 16

section

variable (sha256 : Bytes → String) (parseDuration : String → Except String Nat)
variable (config : Config)

/-- `connection` up to its loop. -/
def opens (t : Task) : Task :=
  let negotiated :=
    negotiate config.acceptor (cancel t.server) { client := t.client }
  let answered := { t with replies := negotiated.2 }
  match negotiated.1 with
  | .panic message => { answered with phase := .panicked message }
  | .error message => { answered with phase := .returned none (.error message) }
  | .value .cancelled =>
      { answered with
        phase := .returned none .ok
        opened := [⟨.plain, cancelPacket t.client negotiated.2⟩]
        records := [.lifecycle t.id "cancel.forwarded" ""] }
  | .value (.packet packet _) =>
      match metadata packet with
      | .panic message => { answered with phase := .panicked message }
      | .error message =>
          { answered with phase := .returned none (.error message) }
      | .value startup =>
          let dialled := dial serverName config t.server packet
          match dialled.2 with
          | .error message =>
              { answered with
                phase := .returned none (.error message)
                opened := dialled.1 }
          | .ok layer =>
              { answered with
                phase := .relaying (Pipe.start t.id startup config.scenarios)
                opened := dialled.1
                layer := layer
                records := [.lifecycle t.id "startup" ""] }

/-- The phase behind a turn of the loop. -/
def turned (pipe : Pipe) : Phase :=
  match pipe.relay.exit with
  | none => .relaying pipe
  | some exit => .returned (some pipe) exit

/-- One step of a task; an event at the wrong time does nothing. -/
def step (t : Task) (event : TaskEvent) : Task :=
  match event, t.phase with
  | .opens, .opening => t.opens serverName config
  | .wakes wake, .relaying pipe =>
      { t with
        phase := turned (pipe.step sha256 parseDuration wake)
        records := (pipe.step sha256 parseDuration wake).relay.trace }
  | .closes, .returned pipe exit =>
      { t with
        phase := .closed pipe
        records := t.records ++ Connection.closed t.id (some exit) }
  | _, _ => t

/-- A whole run of a task. -/
def run (t : Task) (events : List TaskEvent) : Task :=
  Machine.run (step serverName sha256 parseDuration config) t events

end

/-- Everything written to the server so far. -/
def sent (t : Task) : List Write :=
  t.opened ++
    (t.phase.pipe.elim [] fun pipe =>
      pipe.relay.toServer.map fun f => ⟨t.layer, f.raw⟩)

/-! ## What the opening does -/

/-- The startup packet of a client and the loop it leads to. -/
structure Started
    (config : Config)
    (t : Task)
    (packet : Bytes)
    (startup : StartupMetadata) : Prop where
  isPacket : IsPacket packet PROTOCOL_V3
  bytes :
    ∃ (requests : List EncryptionRequest) (rest : Bytes),
      t.client.bytes =
          requests.flatMap EncryptionRequest.packet ++ (packet ++ rest) ∧
        t.replies = requests.map (EncryptionRequest.answer config.acceptor)
  metadata : metadata packet = .value startup
  opened : (t.opened.filter (·.layer = t.layer)).flatMap Write.bytes = packet
  layer : config.connector = true → t.layer = .tls

/-- The writes of a connection in the clear, where TLS is asked for. -/
def Clear (writes : List Write) : Prop :=
  ∀ w ∈ writes,
    w.layer = .plain →
    w.bytes = EncryptionRequest.ssl.packet ∨
      IsPacket w.bytes CANCEL_REQUEST ∧ w.bytes.length = 16

theorem clear_nil : Clear [] := by
  intro w member
  simp at member

theorem Clear.concat
    {writes : List Write}
    (clear : Clear writes)
    (packet : Bytes) :
    Clear (writes ++ [⟨.tls, packet⟩]) := by
  intro w member plain
  rcases List.mem_append.mp member with old | isLast
  · exact clear w old plain
  · rw [List.mem_singleton.mp isLast] at plain
    cases plain

theorem clear_request : Clear [⟨.plain, EncryptionRequest.ssl.packet⟩] := by
  intro w member _
  rw [List.mem_singleton.mp member]
  exact Or.inl rfl

/-- The ways a server can be reached, or not. -/
theorem dial_cases
    (config : Config)
    (server : Upstream)
    (packet : Bytes) :
    (config.connector = true → Clear (dial serverName config server packet).1) ∧
      ∀ layer,
        (dial serverName config server packet).2 = .ok layer →
        (((dial serverName config server packet).1.filter
            (·.layer = layer)).flatMap Write.bytes = packet ∧
          (config.connector = true → layer = .tls)) := by
  unfold dial
  cases server.connect with
  | error message =>
      exact ⟨fun _ => clear_nil, fun _ ok => by cases ok⟩
  | ok done =>
      cases isSet : config.connector with
      | false =>
          refine ⟨fun isTrue => absurd isTrue Bool.false_ne_true, ?_⟩
          simp only [Bool.false_eq_true, if_false, sendStartup]
          cases server.write packet with
          | error message =>
              exact fun _ ok => by cases ok
          | ok done =>
              intro layer ok
              cases ok
              exact ⟨by simp, False.elim⟩
      | true =>
          simp only [if_true]
          cases server.write EncryptionRequest.ssl.packet with
          | error message =>
              exact ⟨fun _ => clear_nil, fun _ ok => by cases ok⟩
          | ok done =>
              simp only
              cases upgrade serverName config server with
              | error message =>
                  exact ⟨fun _ => clear_request, fun _ ok => by cases ok⟩
              | ok done =>
                  simp only [sendStartup]
                  cases server.write packet with
                  | error message =>
                      exact ⟨fun _ => clear_request, fun _ ok => by cases ok⟩
                  | ok done =>
                      refine ⟨fun _ => clear_request.concat packet, ?_⟩
                      intro layer ok
                      cases ok
                      exact ⟨by simp, fun _ => rfl⟩

/-- A well-formed opening, with a server that can be reached, leads to the loop. -/
theorem opens_started
    (config : Config)
    {t : Task}
    {requests : List EncryptionRequest}
    {packet rest : Bytes}
    {startup : StartupMetadata}
    {writes : List Write}
    {layer : Stream}
    (bytes :
      t.client.bytes =
        requests.flatMap EncryptionRequest.packet ++ (packet ++ rest))
    (few : config.acceptor = true → requests.count .ssl ≤ 1)
    (isPacket : IsPacket packet PROTOCOL_V3)
    (read : metadata packet = .value startup)
    (dialled :
      dial serverName config t.server packet = (writes, .ok layer)) :
    t.opens serverName config =
      { t with
        phase := .relaying (Pipe.start t.id startup config.scenarios)
        replies := requests.map (EncryptionRequest.answer config.acceptor)
        opened := writes
        layer := layer
        records := [.lifecycle t.id "startup" ""] } := by
  have asked :
      Asked config.acceptor { client := t.client } requests (packet ++ rest)
        (requests.foldl (Stream.after config.acceptor) .plain)
        (requests.map (EncryptionRequest.answer config.acceptor)) :=
    ⟨bytes, few, rfl, rfl⟩
  have left :
      handle config.acceptor (cancel t.server)
          (requests.foldl (Stream.after config.acceptor) .plain) packet =
        .leave
          (.value
            (.packet packet
              (requests.foldl (Stream.after config.acceptor) .plain)))
          [] :=
    (handle_value_iff config.acceptor (cancel t.server) isPacket.atLeast).mpr
      (Or.inl ⟨rfl, isPacket.code⟩)
  have negotiated :=
    negotiate_leave config.acceptor (cancel t.server)
      (n :=
        { stream := requests.foldl (Stream.after config.acceptor) .plain
          client := { t.client with bytes := packet ++ rest }
          replies := requests.map (EncryptionRequest.answer config.acceptor) })
      (startup_packet isPacket rfl) left
  rw [← negotiate_asked config.acceptor (cancel t.server) asked] at negotiated
  unfold opens
  simp only [negotiated, read, dialled]

/-- What `opens` can lead to. -/
inductive Opens (config : Config) (t u : Task) : Prop where
  | panicked
      (message : String)
      (phase : u.phase = .panicked message)
      (records : u.records = t.records)
      (opened : u.opened = t.opened)
  | refused
      (message : String)
      (phase : u.phase = .returned none (.error message))
      (records : u.records = t.records)
      (clear : config.connector = true → Clear t.opened → Clear u.opened)
  | cancelled
      (phase : u.phase = .returned none .ok)
      (records : u.records = [.lifecycle t.id "cancel.forwarded" ""])
      (clear : Clear u.opened)
  | relays
      (packet : Bytes)
      (startup : StartupMetadata)
      (phase :
        u.phase = .relaying (Pipe.start t.id startup config.scenarios))
      (records : u.records = [.lifecycle t.id "startup" ""])
      (started : Started config u packet startup)
      (clear : config.connector = true → Clear u.opened)

/-- The opening changes neither the number nor the peers of a task. -/
theorem opens_keeps (config : Config) (t : Task) :
    (t.opens serverName config).id = t.id ∧
      (t.opens serverName config).client = t.client ∧
      (t.opens serverName config).server = t.server := by
  unfold opens
  simp only
  split
  · exact ⟨rfl, rfl, rfl⟩
  · exact ⟨rfl, rfl, rfl⟩
  · exact ⟨rfl, rfl, rfl⟩
  · split
    · exact ⟨rfl, rfl, rfl⟩
    · exact ⟨rfl, rfl, rfl⟩
    · split <;> exact ⟨rfl, rfl, rfl⟩

/-- The sixteen bytes of a forwarded cancellation. -/
theorem cancelPacket_isPacket
    {acceptor : Bool}
    {cancel : Bytes → Except String Unit}
    {client : Client}
    {replies : Bytes}
    (ended :
      negotiate acceptor cancel { client := client } =
        (.value .cancelled, replies)) :
    IsPacket (cancelPacket client replies) CANCEL_REQUEST ∧
      (cancelPacket client replies).length = 16 := by
  obtain ⟨requests, packet, rest, stream, asked, atLeast, atMost, word,
    handled⟩ := exists_asked acceptor cancel ended
  rcases (handle_value_iff acceptor cancel atLeast).mp handled with
      ⟨isPacket, -⟩ | ⟨-, code, sixteen, -⟩
  · cases isPacket
  · have counted : (requests.flatMap EncryptionRequest.packet).length =
        8 * replies.length := by
      rw [asked.replies, List.length_flatMap]
      simp [Nat.mul_comm]
    have isLast : cancelPacket client replies = packet := by
      rw [cancelPacket, asked.bytes, ← counted, List.drop_left, ← sixteen,
        List.take_left]
    rw [isLast]
    exact ⟨⟨atLeast, atMost, word, code⟩, sixteen⟩

theorem opens_cases (config : Config) (t : Task) :
    Opens config t (t.opens serverName config) := by
  cases negotiated :
      negotiate config.acceptor (cancel t.server) { client := t.client } with
  | mk flow replies =>
      unfold opens
      simp only [negotiated]
      cases flow with
      | panic message =>
          exact .panicked message rfl rfl rfl
      | error message =>
          exact .refused message rfl rfl fun _ clear => clear
      | value found =>
          cases found with
          | cancelled =>
              refine .cancelled rfl rfl ?_
              intro w member _
              rw [List.mem_singleton.mp member]
              exact Or.inr (cancelPacket_isPacket negotiated)
          | packet packet stream =>
              obtain ⟨requests, last, rest, found, asked, atLeast, atMost,
                word, handled⟩ := exists_asked _ _ negotiated
              rcases (handle_value_iff _ _ atLeast).mp handled with
                  ⟨isPacket, code⟩ | ⟨isCancelled, -⟩
              · cases isPacket
                simp only
                cases parsed : metadata packet with
                | panic message =>
                    exact .panicked message rfl rfl rfl
                | error message =>
                    exact .refused message rfl rfl fun _ clear => clear
                | value startup =>
                    obtain ⟨clear, reached⟩ :=
                      dial_cases serverName config t.server packet
                    simp only
                    generalize
                      dial serverName config t.server packet = dialled at *
                    obtain ⟨writes, outcome⟩ := dialled
                    cases outcome with
                    | error message =>
                        exact .refused message rfl rfl fun isSet _ =>
                          clear isSet
                    | ok layer =>
                        obtain ⟨opened, encrypted⟩ := reached layer rfl
                        refine .relays packet startup rfl rfl ?_ clear
                        exact
                          { isPacket := ⟨atLeast, atMost, word, code⟩
                            bytes :=
                              ⟨requests, rest, asked.bytes, asked.replies⟩
                            metadata := parsed
                            opened := opened
                            layer := encrypted }
              · cases isCancelled

section

variable (sha256 : Bytes → String) (parseDuration : String → Except String Nat)
variable (config : Config)

/-- A task before anything has happened. -/
def accepted (id : Nat) (client : Client) (server : Upstream) : Task where
  id := id
  client := client
  server := server

/-! ## Where a task stands -/

/-- A loop that a startup packet of the client has led to. -/
structure Runs (t : Task) (pipe : Pipe) : Prop where
  started :
    ∃ packet startup wakes,
      Started config t packet startup ∧
        pipe =
          (Pipe.start t.id startup config.scenarios).run sha256 parseDuration
            wakes

/-- The phases of a task, with what it has recorded in each. -/
inductive Stands (t : Task) : Phase → List Record → Prop where
  | opening : Stands t .opening []
  | panicked (message : String) : Stands t (.panicked message) []
  | refused (message : String) :
      Stands t (.returned none (.error message)) []
  | cancelled :
      Stands t (.returned none .ok) [.lifecycle t.id "cancel.forwarded" ""]
  | dismissed
      {exit : Exit}
      {before : List Record}
      (stood : Stands t (.returned none exit) before) :
      Stands t (.closed none) (before ++ Connection.closed t.id (some exit))
  | relaying
      {pipe : Pipe}
      (runs : Runs sha256 parseDuration config t pipe)
      (running : pipe.relay.exit = none) :
      Stands t (.relaying pipe) pipe.relay.trace
  | left
      {pipe : Pipe}
      {exit : Exit}
      (runs : Runs sha256 parseDuration config t pipe)
      (exited : pipe.relay.exit = some exit) :
      Stands t (.returned (some pipe) exit) pipe.relay.trace
  | closed
      {pipe : Pipe}
      {exit : Exit}
      (runs : Runs sha256 parseDuration config t pipe)
      (exited : pipe.relay.exit = some exit) :
      Stands t (.closed (some pipe))
        (pipe.relay.trace ++ Connection.closed t.id (some exit))

/-- What holds of a task after every run. -/
structure Sound (t : Task) : Prop where
  stands : Stands sha256 parseDuration config t t.phase t.records
  clear : config.connector = true → Clear t.opened
  opens :
    t.phase = .opening ∨
      ((∃ message, t.phase = .panicked message) ↔
        (Pgfault.opening config.acceptor (cancel t.server)
          t.client).panics = true)

theorem sound_accepted (id : Nat) (client : Client) (server : Upstream) :
    Sound sha256 parseDuration config (accepted id client server) where
  stands := .opening
  clear _ := clear_nil
  opens := Or.inl rfl

variable {sha256 parseDuration config}

/-- A loop does not depend on the phase and the records around it. -/
theorem Runs.move
    {t : Task}
    {pipe : Pipe}
    (runs : Runs sha256 parseDuration config t pipe)
    (phase : Phase)
    (records : List Record) :
    Runs sha256 parseDuration config
      { t with phase := phase, records := records } pipe := by
  obtain ⟨packet, startup, wakes, started, isPipe⟩ := runs
  refine ⟨packet, startup, wakes, ?_, isPipe⟩
  exact
    { isPacket := started.isPacket
      bytes := started.bytes
      metadata := started.metadata
      opened := started.opened
      layer := started.layer }

/-- One more wake of a loop. -/
theorem Runs.wake
    {t : Task}
    {pipe : Pipe}
    (runs : Runs sha256 parseDuration config t pipe)
    (wake : Wake) :
    Runs sha256 parseDuration config t
      (pipe.step sha256 parseDuration wake) := by
  obtain ⟨packet, startup, wakes, started, rfl⟩ := runs
  refine ⟨packet, startup, wakes ++ [wake], started, ?_⟩
  simp [Pipe.run]

/-- A turn of the loop leaves the task in the loop or behind it. -/
theorem Runs.stands
    {t : Task}
    {pipe : Pipe}
    (runs : Runs sha256 parseDuration config t pipe) :
    Stands sha256 parseDuration config t (turned pipe) pipe.relay.trace := by
  unfold turned
  cases exit : pipe.relay.exit with
  | none =>
      exact .relaying runs exit
  | some exit =>
      exact .left runs exit

/-- A task that has returned closes. -/
theorem Stands.close
    {t : Task}
    {pipe : Option Pipe}
    {exit : Exit}
    {before : List Record}
    (stands :
      Stands sha256 parseDuration config t (.returned pipe exit) before)
    (records : List Record) :
    Stands sha256 parseDuration config
      { t with phase := .closed pipe, records := records } (.closed pipe)
      (before ++ Connection.closed t.id (some exit)) := by
  cases stands with
  | refused message =>
      exact .dismissed (.refused message)
  | cancelled =>
      exact .dismissed .cancelled
  | left runs exited =>
      exact .closed (runs.move _ _) exited

/-- Whether the opening of a task panics depends on its client alone. -/
theorem opens_panics (config : Config) (t : Task) :
    (∃ message, (t.opens serverName config).phase = .panicked message) ↔
      (Pgfault.opening config.acceptor (cancel t.server)
        t.client).panics = true := by
  unfold opens Pgfault.opening
  generalize
    negotiate config.acceptor (cancel t.server) { client := t.client } =
      negotiated
  obtain ⟨flow, replies⟩ := negotiated
  cases flow with
  | panic message =>
      simp [Flow.bind, Flow.panics]
  | error message =>
      simp [Flow.bind, Flow.panics]
  | value found =>
      cases found with
      | cancelled =>
          simp [Flow.bind, Flow.panics]
      | packet packet stream =>
          simp only [Flow.bind]
          cases metadata packet with
          | panic message =>
              simp [Flow.panics]
          | error message =>
              simp [Flow.panics]
          | value startup =>
              simp only [Flow.panics]
              split <;> simp

/-- A task that has not opened has recorded nothing. -/
theorem Sound.unrecorded
    {t : Task}
    (sound : Sound sha256 parseDuration config t)
    (phase : t.phase = .opening) :
    t.records = [] := by
  have stands := sound.stands
  rw [phase] at stands
  generalize t.records = records at stands
  cases stands
  rfl

/-- The opening of a task. -/
theorem Sound.opening
    {t : Task}
    (sound : Sound sha256 parseDuration config t)
    (phase : t.phase = .opening) :
    Sound sha256 parseDuration config (t.opens serverName config) := by
  have panics := opens_panics serverName config t
  obtain ⟨id, client, server⟩ := opens_keeps serverName config t
  have unrecorded := sound.unrecorded phase
  rw [← client, ← server] at panics
  rcases opens_cases serverName config t with
      ⟨message, isPhase, records, opened⟩ |
        ⟨message, isPhase, records, clear⟩ | ⟨isPhase, records, clear⟩ |
          ⟨packet, startup, isPhase, records, started, clear⟩
  · refine ⟨?_, ?_, Or.inr panics⟩
    · rw [isPhase, records, unrecorded]
      exact .panicked message
    · intro isSet
      rw [opened]
      exact sound.clear isSet
  · refine ⟨?_, ?_, Or.inr panics⟩
    · rw [isPhase, records, unrecorded]
      exact .refused message
    · exact fun isSet => clear isSet (sound.clear isSet)
  · refine ⟨?_, fun _ => clear, Or.inr panics⟩
    rw [isPhase, records, ← id]
    exact .cancelled
  · refine ⟨?_, clear, Or.inr panics⟩
    rw [isPhase, records, ← id]
    exact .relaying ⟨packet, startup, [], started, rfl⟩ rfl

/-- A task that has gone on has not panicked. -/
theorem Sound.calm
    {t : Task}
    (sound : Sound sha256 parseDuration config t)
    (opened : t.phase ≠ .opening)
    (goesOn : ∀ message, t.phase ≠ .panicked message) :
    ¬ (Pgfault.opening config.acceptor (cancel t.server)
      t.client).panics = true := by
  intro panics
  rcases sound.opens with isOpening | decided
  · exact opened isOpening
  · obtain ⟨message, isPanicked⟩ := decided.mpr panics
    exact goesOn message isPanicked

/-- One step of a task. -/
theorem Sound.step
    {t : Task}
    (sound : Sound sha256 parseDuration config t)
    (event : TaskEvent) :
    Sound sha256 parseDuration config
      (t.step serverName sha256 parseDuration config event) := by
  have stands := sound.stands
  unfold Task.step
  split
  · rename_i phase
    exact sound.opening serverName phase
  · rename_i wake pipe phase
    rw [phase] at stands
    generalize t.records = records at stands
    cases stands with
    | relaying runs running =>
        refine ⟨((runs.wake wake).move _ _).stands, sound.clear, Or.inr ?_⟩
        refine iff_of_false ?_ (sound.calm (by simp [phase]) (by simp [phase]))
        rintro ⟨message, isPanicked⟩
        simp only [turned] at isPanicked
        split at isPanicked <;> cases isPanicked
  · rename_i pipe exit phase
    rw [phase] at stands
    refine ⟨stands.close _, sound.clear, Or.inr ?_⟩
    refine iff_of_false ?_ (sound.calm (by simp [phase]) (by simp [phase]))
    rintro ⟨message, isPanicked⟩
    cases isPanicked
  · exact sound

variable (sha256 parseDuration config)

/-- Every run of a task. -/
theorem sound_run
    (id : Nat)
    (client : Client)
    (server : Upstream)
    (events : List TaskEvent) :
    Sound sha256 parseDuration config
      ((accepted id client server).run serverName sha256 parseDuration config
        events) :=
  Machine.run_invariant
    (fun _ event sound => sound.step serverName event)
    (sound_accepted sha256 parseDuration config id client server) events

/-- A loop a task has come to was led to by a startup packet. -/
theorem Stands.runs
    {t : Task}
    {phase : Phase}
    {records : List Record}
    (stands : Stands sha256 parseDuration config t phase records)
    {pipe : Pipe}
    (isPipe : phase.pipe = some pipe) :
    Runs sha256 parseDuration config t pipe := by
  cases stands with
  | opening =>
      cases isPipe
  | panicked message =>
      cases isPipe
  | refused message =>
      cases isPipe
  | cancelled =>
      cases isPipe
  | dismissed stood =>
      cases isPipe
  | relaying runs running =>
      cases isPipe
      exact runs
  | left runs exited =>
      cases isPipe
      exact runs
  | closed runs exited =>
      cases isPipe
      exact runs

/--
With `--upstream-tls` nothing of a session reaches the server in the clear.  In
every run of a connection, whatever the server answers, what is written to it
without TLS is the `SSLRequest` or a cancellation.
-/
theorem clear_writes_negotiate
    (asked : config.connector = true)
    (id : Nat)
    (client : Client)
    (server : Upstream)
    (events : List TaskEvent) :
    ∀ w ∈ ((accepted id client server).run serverName sha256 parseDuration
        config events).sent,
      w.layer = .plain →
      w.bytes = EncryptionRequest.ssl.packet ∨
        IsPacket w.bytes CANCEL_REQUEST ∧ w.bytes.length = 16 := by
  have sound :=
    sound_run serverName sha256 parseDuration config id client server events
  generalize
    (accepted id client server).run serverName sha256 parseDuration config
      events = t at sound
  intro w member plain
  rcases List.mem_append.mp member with opened | relayed
  · exact sound.clear asked w opened plain
  · cases isPipe : t.phase.pipe with
    | none =>
        simp [isPipe] at relayed
    | some pipe =>
        obtain ⟨packet, startup, wakes, started, -⟩ :=
          sound.stands.runs sha256 parseDuration config isPipe
        simp only [isPipe, Option.elim_some, List.mem_map] at relayed
        obtain ⟨f, -, rfl⟩ := relayed
        rw [started.layer asked] at plain
        cases plain

/--
A session from end to end.  While no fault has fired and the loop runs, the
client has sent requests for encryption, each answered by its byte, and a startup
packet; the layer of the session has carried that packet and the frames of the
client to the server, and the client got the frames of the server, each up to
what is buffered or held.
-/
theorem session_end_to_end
    (id : Nat)
    (client : Client)
    (server : Upstream)
    (events : List TaskEvent)
    (pipe : Pipe)
    (relays :
      ((accepted id client server).run serverName sha256 parseDuration config
        events).phase = .relaying pipe)
    (unfired : ∀ m ∈ pipe.relay.matchers, m.fired = false) :
    let t :=
      (accepted id client server).run serverName sha256 parseDuration config
        events
    ∃ (requests : List EncryptionRequest) (packet rest : Bytes),
      t.client.bytes =
          requests.flatMap EncryptionRequest.packet ++ (packet ++ rest) ∧
        t.replies = requests.map (EncryptionRequest.answer config.acceptor) ∧
        IsPacket packet PROTOCOL_V3 ∧
        (t.sent.filter (·.layer = t.layer)).flatMap Write.bytes ++
            pipe.reader .frontend =
          packet ++ pipe.taken .frontend ∧
        pipe.relay.toClient.flatMap (fun d => d.frame.raw) ++
            pipe.relay.held.flatMap (fun d => d.frame.raw) ++
            pipe.reader .upstream =
          pipe.taken .upstream := by
  have sound :=
    sound_run serverName sha256 parseDuration config id client server events
  generalize
    (accepted id client server).run serverName sha256 parseDuration config
      events = t at sound relays
  have isPipe : t.phase.pipe = some pipe := by
    rw [relays]
    rfl
  have stands := sound.stands
  obtain ⟨packet, startup, wakes, started, isRun⟩ :=
    stands.runs sha256 parseDuration config isPipe
  have running : pipe.relay.exit = none := by
    rw [relays] at stands
    generalize t.records = records at stands
    cases stands with
    | relaying runs running => exact running
  obtain ⟨requests, rest, bytes, replies⟩ := started.bytes
  obtain ⟨inputs, refines⟩ :=
    Pipe.refines_run sha256 parseDuration t.id startup config.scenarios wakes
  rw [← isRun] at refines
  obtain ⟨upstream, downstream⟩ :=
    refines.conserved sha256 parseDuration running unfired
  refine ⟨requests, packet, rest, bytes, replies, started.isPacket, ?_,
    downstream⟩
  -- All frames of the loop go through the layer of the session.
  have carried :
      (t.sent.filter (·.layer = t.layer)).flatMap Write.bytes =
        packet ++ pipe.relay.toServer.flatMap Frame.raw := by
    rw [sent, isPipe, List.filter_append, List.flatMap_append, started.opened,
      Option.elim_some, List.filter_eq_self.mpr (by simp), List.flatMap_map]
  rw [carried, List.append_assoc, upstream]

end

/-! ## A session through TLS on both sides -/

/-- A proxy with TLS on both sides. -/
def encrypted : Config where
  upstream := "db.internal:5432"
  scenarios := [Relay.dropCommit]
  acceptor := true
  connector := true

/-- A server that takes everything. -/
def willing : Upstream where
  connect := .ok ()
  write := fun _ => .ok ()
  reply := .ok 83
  handshake := .ok ()

/-- A startup packet without parameters. -/
def bareStartup : Bytes :=
  [0, 0, 0, 9, 0, 3, 0, 0, 0]

/-- A client that asks for encryption first. -/
def asking : Client where
  bytes := EncryptionRequest.ssl.packet ++ bareStartup

theorem metadata_bareStartup : metadata bareStartup = .value default := by
  have first : cstr [0] = some ([], []) := by decide
  have sliced : slice bareStartup 8 bareStartup.length = .value [0] := by
    decide
  rw [metadata, sliced, Flow.bind]
  unfold parameters
  split
  · rename_i unread
    rw [first] at unread
    cases unread
  · rename_i key tail read
    rw [first] at read
    cases read
    rfl

theorem phase_opens_asking :
    ((accepted 1 asking willing).opens (fun _ => true) encrypted).phase =
      .relaying (Pipe.start 1 default [Relay.dropCommit]) := by
  have isPacket : IsPacket bareStartup PROTOCOL_V3 := by
    constructor <;> decide
  have dialled :
      dial (fun _ => true) encrypted willing bareStartup =
        ([⟨.plain, EncryptionRequest.ssl.packet⟩, ⟨.tls, bareStartup⟩],
          .ok .tls) :=
    rfl
  have bytes :
      (accepted 1 asking willing).client.bytes =
        [EncryptionRequest.ssl].flatMap EncryptionRequest.packet ++
          (bareStartup ++ []) :=
    rfl
  rw [opens_started (fun _ => true) encrypted bytes (fun _ => by decide)
    isPacket metadata_bareStartup dialled]
  rfl

/-- A query of the client, and the first byte of the next frame. -/
def firstQuery : Wake :=
  .read .frontend
    ⟨(message 'Q' (ascii "SELECT 1" ++ [0])).raw ++ [81],
      List.append_ne_nil_of_right_ne_nil _ (List.cons_ne_nil _ _)⟩

theorem phase_firstQuery :
    ((accepted 1 asking willing).run (fun _ => true) sampleSha256
        (fun _ => .ok 0) encrypted [.opens, .wakes firstQuery]).phase =
      .relaying
        ((Pipe.start 1 default [Relay.dropCommit]).step sampleSha256
          (fun _ => .ok 0) firstQuery) := by
  have opened :
      (accepted 1 asking willing).step (fun _ => true) sampleSha256
          (fun _ => .ok 0) encrypted .opens =
        (accepted 1 asking willing).opens (fun _ => true) encrypted := rfl
  have running :
      ((Pipe.start 1 default [Relay.dropCommit]).step sampleSha256
        (fun _ => .ok 0) firstQuery).relay.exit = none := by
    decide +kernel
  rw [run, Machine.run_cons, opened, Machine.run_cons, Machine.run_nil]
  unfold step
  simp only [phase_opens_asking, turned, running]

theorem session_end_to_end_firstQuery :
    let t :=
      (accepted 1 asking willing).run (fun _ => true) sampleSha256
        (fun _ => .ok 0) encrypted [.opens, .wakes firstQuery]
    let pipe :=
      (Pipe.start 1 default [Relay.dropCommit]).step sampleSha256
        (fun _ => .ok 0) firstQuery
    ∃ (requests : List EncryptionRequest) (packet rest : Bytes),
      t.client.bytes =
          requests.flatMap EncryptionRequest.packet ++ (packet ++ rest) ∧
        t.replies = requests.map (EncryptionRequest.answer true) ∧
        IsPacket packet PROTOCOL_V3 ∧
        (t.sent.filter (·.layer = t.layer)).flatMap Write.bytes ++
            pipe.reader .frontend =
          packet ++ pipe.taken .frontend ∧
        pipe.relay.toClient.flatMap (fun d => d.frame.raw) ++
            pipe.relay.held.flatMap (fun d => d.frame.raw) ++
            pipe.reader .upstream =
          pipe.taken .upstream :=
  session_end_to_end (fun _ => true) sampleSha256 (fun _ => .ok 0) encrypted 1
    asking willing [.opens, .wakes firstQuery] _ phase_firstQuery
    (by decide +kernel)

theorem clear_writes_negotiate_firstQuery :
    encrypted.connector = true ∧
      ∀ w ∈ ((accepted 1 asking willing).run (fun _ => true) sampleSha256
          (fun _ => .ok 0) encrypted [.opens, .wakes firstQuery]).sent,
        w.layer = .plain →
        w.bytes = EncryptionRequest.ssl.packet ∨
          IsPacket w.bytes CANCEL_REQUEST ∧ w.bytes.length = 16 :=
  ⟨rfl,
    clear_writes_negotiate (fun _ => true) sampleSha256 (fun _ => .ok 0)
      encrypted rfl 1 asking willing [.opens, .wakes firstQuery]⟩

end Task

end

end Pgfault
