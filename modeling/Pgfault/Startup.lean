import Mathlib.Data.List.Count
import Pgfault.Events
import Pgfault.Framing
import Pgfault.Machine
import Pgfault.Queue

namespace Pgfault

/-!
# Startup negotiation

A client may ask for encryption any number of times before it sends its startup
packet.  `negotiate` is the first loop of `connection`, on the bytes the client
sends; `serve` joins the finished connections, and a panic in one of them ends
the whole proxy.

Indexing out of range and `unreachable!` are modelled as panics.  TLS handshakes
and writes to the client are taken to succeed, and behind a handshake the client's
bytes are the decrypted ones.
-/

/-- How a piece of a task ends. -/
inductive Flow (Value : Type) where
  | value (found : Value)
  | error (message : String)
  | panic (message : String)
  deriving Repr, DecidableEq

namespace Flow

variable {Value Other : Type}

/-- Go on with a value; an error (`?`) or a panic ends the task. -/
def bind (flow : Flow Value) (next : Value → Flow Other) : Flow Other :=
  match flow with
  | .value found => next found
  | .error message => .error message
  | .panic message => .panic message

/-- Whether the task panics. -/
def panics : Flow Value → Bool
  | .panic _ => true
  | _ => false

end Flow

/-- `&bytes[low..high]`. -/
def slice (bytes : Bytes) (low high : Nat) : Flow Bytes :=
  if low ≤ high ∧ high ≤ bytes.length then
    .value ((bytes.take high).drop low)
  else
    .panic "range index out of range"

/-- What a client sends, and how a read behind it fails. -/
structure Client where
  bytes : Bytes
  failure : String := "early eof"
  deriving Repr, DecidableEq

/-- `read_exact`: some bytes, and what the client has left. -/
def readExact (client : Client) (count : Nat) : Flow (Bytes × Client) :=
  if count ≤ client.bytes.length then
    .value (client.bytes.take count,
      { client with bytes := client.bytes.drop count })
  else
    .error client.failure

/-- The longest startup packet. -/
def startupLimit : Nat :=
  1024 * 1024

/-- Read one startup packet, with its length word. -/
def startup (client : Client) : Flow (Bytes × Client) :=
  (readExact client 4).bind fun head =>
    let len := fromBeBytes head.1
    if 8 ≤ len ∧ len ≤ startupLimit then
      let data : Bytes := List.replicate len 0
      (slice data 0 4).bind fun _ =>
        (slice data 4 data.length).bind fun tail =>
          (readExact head.2 tail.length).bind fun body =>
            .value (beBytes len ++ body.1, body.2)
    else
      .error "invalid startup length"

/-- The code of an `SSLRequest`. -/
def SSL_REQUEST : Nat := 80877103

/-- The code of a `GSSENCRequest`. -/
def GSS_REQUEST : Nat := 80877104

/-- The code of a `CancelRequest`. -/
def CANCEL_REQUEST : Nat := 80877102

/-- The code of a protocol 3.0 startup message. -/
def PROTOCOL_V3 : Nat := 196608

/-- The stream to the client. -/
inductive Stream where
  | plain
  | tls
  deriving Repr, DecidableEq

/-- Take the socket out of a stream for a TLS handshake. -/
def Stream.intoPlain : Stream → Flow Unit
  | .plain => .value ()
  | .tls =>
      .panic
        ("internal error: entered unreachable code: " ++
          "SSLRequest after TLS already established")

/-- How the negotiation ends without an error. -/
inductive Negotiated where
  /-- The startup packet has come; the loop breaks with it. -/
  | packet (bytes : Bytes) (stream : Stream)
  /-- A cancellation has been forwarded; `connection` returns. -/
  | cancelled
  deriving Repr, DecidableEq

/-- An index range inside the bytes does not panic. -/
theorem slice_of_le
    {bytes : Bytes}
    {low high : Nat}
    (ordered : low ≤ high)
    (inside : high ≤ bytes.length) :
    slice bytes low high = .value ((bytes.take high).drop low) :=
  if_pos ⟨ordered, inside⟩

/-- The length word of a startup packet. -/
def startupLength (bytes : Bytes) : Nat :=
  fromBeBytes (bytes.take 4)

/-- `startup` takes as many bytes as the length word says. -/
theorem startup_eq (client : Client) :
    startup client =
      if client.bytes.length < 4 then
        .error client.failure
      else if 8 ≤ startupLength client.bytes ∧
          startupLength client.bytes ≤ startupLimit then
        if client.bytes.length < startupLength client.bytes then
          .error client.failure
        else
          .value (client.bytes.take (startupLength client.bytes),
            { client with
              bytes := client.bytes.drop (startupLength client.bytes) })
      else
        .error "invalid startup length" := by
  by_cases short : client.bytes.length < 4
  · have stops : readExact client 4 = .error client.failure :=
      if_neg (by omega)
    rw [if_pos short, startup, stops]
    rfl
  · have reads :
        readExact client 4 =
          .value (client.bytes.take 4,
            { client with bytes := client.bytes.drop 4 }) :=
      if_pos (by omega)
    rw [if_neg short, startup, reads]
    simp only [Flow.bind]
    rw [← startupLength]
    by_cases window :
        8 ≤ startupLength client.bytes ∧
          startupLength client.bytes ≤ startupLimit
    · have lower := window.1
      rw [if_pos window, if_pos window]
      -- Both slices of the zeroed packet are in range.
      rw [slice_of_le (Nat.zero_le 4) (by rw [List.length_replicate]; omega),
        slice_of_le (by rw [List.length_replicate]; omega) (Nat.le_refl _)]
      simp only [List.length_drop, List.length_take, List.length_replicate,
        Nat.min_self]
      by_cases incomplete :
          client.bytes.length < startupLength client.bytes
      · have stops :
            readExact { client with bytes := client.bytes.drop 4 }
                (startupLength client.bytes - 4) =
              .error client.failure :=
          if_neg (by rw [List.length_drop]; omega)
        rw [if_pos incomplete, stops]
      · have readsOn :
            readExact { client with bytes := client.bytes.drop 4 }
                (startupLength client.bytes - 4) =
              .value
                ((client.bytes.drop 4).take (startupLength client.bytes - 4),
                  { client with
                    bytes :=
                      (client.bytes.drop 4).drop
                        (startupLength client.bytes - 4) }) :=
          if_pos (by rw [List.length_drop]; omega)
        have word :
            beBytes (startupLength client.bytes) = client.bytes.take 4 :=
          beBytes_fromBeBytes (by rw [List.length_take]; omega)
        have whole : 4 + (startupLength client.bytes - 4) =
            startupLength client.bytes := by
          omega
        rw [if_neg incomplete, readsOn]
        simp only
        rw [word, List.drop_drop, ← List.take_add, whole]
    · rw [if_neg window, if_neg window]

/-- A read packet is taken off the front of what the client sends. -/
theorem startup_value
    {client later : Client}
    {packet : Bytes}
    (read : startup client = .value (packet, later)) :
    client.bytes = packet ++ later.bytes ∧ 8 ≤ packet.length ∧
      packet.take 4 = beBytes packet.length := by
  rw [startup_eq] at read
  split at read
  · cases read
  · next long =>
      split at read
      · next window =>
          split at read
          · cases read
          · next complete =>
              cases read
              have length :
                  (client.bytes.take (startupLength client.bytes)).length =
                    startupLength client.bytes := by
                rw [List.length_take]
                omega
              refine ⟨(List.take_append_drop _ _).symm, ?_, ?_⟩
              · rw [length]
                exact window.1
              · have lower := window.1
                rw [length, List.take_take, Nat.min_eq_left (by omega)]
                exact (beBytes_fromBeBytes
                  (by rw [List.length_take]; omega)).symm
      · cases read

/-- `startup` never panics. -/
theorem startup_panics (client : Client) :
    (startup client).panics = false := by
  rw [startup_eq]
  repeat' split
  all_goals rfl

/-- A read packet leaves fewer bytes. -/
theorem length_lt_of_startup
    {client later : Client}
    {packet : Bytes}
    (read : startup client = .value (packet, later)) :
    later.bytes.length < client.bytes.length := by
  obtain ⟨split, atLeast, -⟩ := startup_value read
  rw [split, List.length_append]
  omega

/-! ## The negotiation loop -/

/-- The loop variables: the stream, the client, and what was written to it. -/
structure Negotiation where
  stream : Stream := .plain
  client : Client
  replies : Bytes := []

/-- What one packet makes the loop do. -/
inductive Reaction where
  /-- Answer and read the next packet. -/
  | again (reply : Bytes) (stream : Stream)
  /-- Leave the loop, perhaps behind a last answer. -/
  | leave (flow : Flow Negotiated) (reply : Bytes)

section

variable (acceptor : Bool) (cancel : Bytes → Except String Unit)

/-- One pass of the loop behind `startup`. -/
def handle (stream : Stream) (packet : Bytes) : Reaction :=
  match slice packet 4 8 with
  | .panic message => .leave (.panic message) []
  | .error message => .leave (.error message) []
  | .value word =>
      let code := fromBeBytes word
      if code = SSL_REQUEST then
        if packet.length ≠ 8 then
          .leave (.error "invalid negotiation request") []
        else if acceptor then
          -- The answer is written before the stream is taken apart.
          match stream.intoPlain with
          | .value () => .again (ascii "S") .tls
          | .error message => .leave (.error message) (ascii "S")
          | .panic message => .leave (.panic message) (ascii "S")
        else
          .again (ascii "N") stream
      else if code = GSS_REQUEST then
        if packet.length ≠ 8 then
          .leave (.error "invalid negotiation request") []
        else
          .again (ascii "N") stream
      else if code = CANCEL_REQUEST then
        if packet.length ≠ 16 then
          .leave (.error "invalid cancellation request") []
        else
          match cancel packet with
          | .ok () => .leave (.value .cancelled) []
          | .error message => .leave (.error message) []
      else if code = PROTOCOL_V3 then
        .leave (.value (.packet packet stream)) []
      else
        .leave
          (.error
            ("unsupported startup protocol " ++ toString code ++
              "; use PostgreSQL protocol 3.0 and sslmode=disable"))
          []

/-- The negotiation loop: how it ends, and what it wrote to the client. -/
def negotiate (n : Negotiation) : Flow Negotiated × Bytes :=
  match read : startup n.client with
  | .error message => (.error message, n.replies)
  | .panic message => (.panic message, n.replies)
  | .value (packet, later) =>
      match handle acceptor cancel n.stream packet with
      | .leave flow reply => (flow, n.replies ++ reply)
      | .again reply stream =>
          negotiate
            { stream := stream
              client := later
              replies := n.replies ++ reply }
  termination_by n.client.bytes.length
  decreasing_by exact length_lt_of_startup read

end

/-! ## Startup parameters -/

/-- The bytes behind a C string are fewer. -/
theorem length_lt_of_cstr
    {bytes text rest : Bytes}
    (read : cstr bytes = some (text, rest)) :
    rest.length < bytes.length := by
  induction bytes generalizing text with
  | nil =>
      cases read
  | cons byte later inductionHypothesis =>
      unfold cstr at read
      split at read
      · cases read
        exact Nat.lt_succ_self _
      · cases inner : cstr later with
        | none =>
            simp [inner] at read
        | some parts =>
            simp only [inner, Option.map_some, Option.some.injEq,
              Prod.mk.injEq] at read
            obtain ⟨-, rfl⟩ := read
            exact Nat.lt_succ_of_lt (inductionHypothesis inner)

/-- Store one startup parameter. -/
def StartupMetadata.store
    (m : StartupMetadata)
    (key value : Bytes) : StartupMetadata :=
  if key = ascii "user" then
    { m with user := some (fromUtf8Lossy value) }
  else if key = ascii "database" then
    { m with database := some (fromUtf8Lossy value) }
  else if key = ascii "application_name" then
    { m with applicationName := some (fromUtf8Lossy value) }
  else
    m

/-- The loop of `metadata` over the remaining parameters. -/
def parameters
    (m : StartupMetadata)
    (rest : Bytes) : Flow StartupMetadata :=
  match first : cstr rest with
  | none => .error "invalid startup parameter"
  | some (key, tail) =>
      if key.isEmpty then
        if tail.isEmpty then .value m else .error "trailing startup data"
      else
        match second : cstr tail with
        | none => .error "invalid startup value"
        | some (value, tail) => parameters (m.store key value) tail
  termination_by rest.length
  decreasing_by
    have behindKey := length_lt_of_cstr first
    have behindValue := length_lt_of_cstr second
    omega

/-- The startup parameters of a packet. -/
def metadata (packet : Bytes) : Flow StartupMetadata :=
  (slice packet 8 packet.length).bind fun rest => parameters default rest

/-- What `connection` does before it connects to the server. -/
def opening
    (acceptor : Bool)
    (cancel : Bytes → Except String Unit)
    (client : Client) : Flow (Option (Bytes × StartupMetadata)) :=
  (negotiate acceptor cancel { client := client }).1.bind fun
    | .cancelled => .value none
    | .packet packet _ =>
        (metadata packet).bind fun parsed => .value (some (packet, parsed))

/-! ## Requests for encryption -/

/-- A request that keeps the loop going. -/
inductive EncryptionRequest where
  | ssl
  | gss
  deriving Repr, DecidableEq

namespace EncryptionRequest

/-- The code of a request. -/
def code : EncryptionRequest → Nat
  | .ssl => SSL_REQUEST
  | .gss => GSS_REQUEST

/-- The eight bytes of a request. -/
def packet (request : EncryptionRequest) : Bytes :=
  beBytes 8 ++ beBytes request.code

@[simp] theorem length_packet (request : EncryptionRequest) :
    request.packet.length = 8 := rfl

theorem packet_injective
    {request other : EncryptionRequest}
    (same : request.packet = other.packet) :
    request = other := by
  cases request <;> cases other
  · rfl
  · exact absurd same (by decide)
  · exact absurd same (by decide)
  · rfl

end EncryptionRequest

/--
What a client sends starts with requests for encryption, at least `count` of them
`SSLRequest`s.
-/
def RequestsSsl (count : Nat) (bytes : Bytes) : Prop :=
  ∃ (requests : List EncryptionRequest) (rest : Bytes),
    bytes = requests.flatMap EncryptionRequest.packet ++ rest ∧
      count ≤ requests.count .ssl

/-- Requests are counted from the front. -/
theorem requestsSsl_packet
    (count : Nat)
    (request : EncryptionRequest)
    (rest : Bytes) :
    RequestsSsl (count + 1) (request.packet ++ rest) ↔
      RequestsSsl (if request = .ssl then count else count + 1) rest := by
  constructor
  · rintro ⟨requests, later, shape, enough⟩
    cases requests with
    | nil =>
        simp at enough
    | cons first others =>
        rw [List.flatMap_cons, List.append_assoc] at shape
        obtain ⟨samePacket, sameRest⟩ := List.append_inj shape rfl
        have isFirst := EncryptionRequest.packet_injective samePacket
        subst isFirst
        refine ⟨others, later, sameRest, ?_⟩
        cases request with
        | ssl =>
            rw [List.count_cons_self] at enough
            exact Nat.le_of_succ_le_succ enough
        | gss =>
            rw [List.count_cons_of_ne (by decide)] at enough
            exact enough
  · rintro ⟨requests, later, rfl, enough⟩
    refine ⟨request :: requests, later, ?_, ?_⟩
    · rw [List.flatMap_cons, List.append_assoc]
    · cases request with
      | ssl =>
          rw [List.count_cons_self]
          exact Nat.succ_le_succ enough
      | gss =>
          rw [List.count_cons_of_ne (by decide)]
          exact enough

/-- Without a request at the front none is counted. -/
theorem not_requestsSsl
    {bytes : Bytes}
    (none :
      ∀ (request : EncryptionRequest) (rest : Bytes),
        bytes ≠ request.packet ++ rest)
    (count : Nat) :
    ¬ RequestsSsl (count + 1) bytes := by
  rintro ⟨requests, later, shape, enough⟩
  cases requests with
  | nil =>
      simp at enough
  | cons first others =>
      rw [List.flatMap_cons, List.append_assoc] at shape
      exact none first _ shape

/-- `startup` reads a request off the front. -/
theorem startup_request
    {client : Client}
    {request : EncryptionRequest}
    {rest : Bytes}
    (shape : client.bytes = request.packet ++ rest) :
    startup client = .value (request.packet, { client with bytes := rest }) := by
  have word : startupLength client.bytes = 8 := by
    rw [shape]
    exact fromBeBytes_beBytes (by decide)
  have length : client.bytes.length = 8 + rest.length := by
    rw [shape, List.length_append, EncryptionRequest.length_packet]
  rw [startup_eq, word, if_neg (by omega), if_pos (by decide),
    if_neg (by omega), shape]
  rw [show 8 = request.packet.length from rfl, List.take_left,
    List.drop_left]

/-- The code behind the length word of a packet. -/
theorem slice_code
    {packet : Bytes}
    (atLeast : 8 ≤ packet.length) :
    slice packet 4 8 = .value ((packet.drop 4).take 4) := by
  rw [slice_of_le (by decide) atLeast, List.drop_take]

/-- A short packet with the code of a request is that request. -/
theorem eq_packet
    {packet : Bytes}
    {request : EncryptionRequest}
    (length : packet.length = 8)
    (word : packet.take 4 = beBytes packet.length)
    (code : fromBeBytes ((packet.drop 4).take 4) = request.code) :
    packet = request.packet := by
  have codeBytes : packet.drop 4 = beBytes request.code := by
    have four : (packet.drop 4).length = 4 := by
      rw [List.length_drop, length]
    rw [List.take_of_length_le (Nat.le_of_eq four)] at code
    rw [← code]
    exact (beBytes_fromBeBytes four).symm
  calc
    packet = packet.take 4 ++ packet.drop 4 :=
      (List.take_append_drop 4 packet).symm
    _ = request.packet := by
      rw [word, length, codeBytes]
      rfl

/-! ## Panics of the negotiation -/

/-- How many `SSLRequest`s a stream needs to panic. -/
def Stream.endures : Stream → Nat
  | .plain => 1
  | .tls => 0

section

variable (acceptor : Bool) (cancel : Bytes → Except String Unit)

/-- What an `SSLRequest` makes the loop do. -/
theorem handle_ssl (stream : Stream) :
    handle acceptor cancel stream EncryptionRequest.ssl.packet =
      if acceptor then
        match stream with
        | .plain => .again (ascii "S") .tls
        | .tls =>
            .leave
              (.panic
                ("internal error: entered unreachable code: " ++
                  "SSLRequest after TLS already established"))
              (ascii "S")
      else
        .again (ascii "N") stream := by
  have isSsl :
      fromBeBytes ((EncryptionRequest.ssl.packet.drop 4).take 4) =
        SSL_REQUEST := by
    decide
  unfold handle
  rw [slice_code (by decide)]
  simp only [isSsl, if_true, EncryptionRequest.length_packet]
  cases acceptor with
  | true =>
      cases stream <;>
        simp only [Stream.intoPlain, ne_eq, not_true_eq_false, if_true, if_false]
  | false =>
      simp only [ne_eq, not_true_eq_false, if_false, Bool.false_eq_true]

/-- What a `GSSENCRequest` makes the loop do. -/
theorem handle_gss (stream : Stream) :
    handle acceptor cancel stream EncryptionRequest.gss.packet =
      .again (ascii "N") stream := by
  have isGss :
      fromBeBytes ((EncryptionRequest.gss.packet.drop 4).take 4) =
        GSS_REQUEST := by
    decide
  unfold handle
  rw [slice_code (by decide)]
  simp only [isGss]
  rfl

/-- Every other packet leaves the loop without a panic. -/
theorem handle_other
    {packet : Bytes}
    (atLeast : 8 ≤ packet.length)
    (word : packet.take 4 = beBytes packet.length)
    (other : ∀ request : EncryptionRequest, packet ≠ request.packet)
    (stream : Stream) :
    ∃ flow,
      handle acceptor cancel stream packet = .leave flow [] ∧
        flow.panics = false := by
  unfold handle
  rw [slice_code atLeast]
  simp only
  split
  · next isSsl =>
      by_cases length : packet.length = 8
      · have isPacket : packet = EncryptionRequest.ssl.packet :=
          eq_packet length word isSsl
        exact absurd isPacket (other .ssl)
      · rw [if_pos length]
        exact ⟨_, rfl, rfl⟩
  · split
    · next isGss =>
        by_cases length : packet.length = 8
        · have isPacket : packet = EncryptionRequest.gss.packet :=
            eq_packet length word isGss
          exact absurd isPacket (other .gss)
        · rw [if_pos length]
          exact ⟨_, rfl, rfl⟩
    · repeat' split
      all_goals exact ⟨_, rfl, rfl⟩

/-- A packet asks for encryption in one of two ways, or it does not. -/
theorem request_or_other (packet : Bytes) :
    packet = EncryptionRequest.ssl.packet ∨
      packet = EncryptionRequest.gss.packet ∨
      ∀ request : EncryptionRequest, packet ≠ request.packet := by
  by_cases isSsl : packet = EncryptionRequest.ssl.packet
  · exact Or.inl isSsl
  · by_cases isGss : packet = EncryptionRequest.gss.packet
    · exact Or.inr (Or.inl isGss)
    · refine Or.inr (Or.inr ?_)
      intro request
      cases request
      · exact isSsl
      · exact isGss

/-- A packet that is no request ends the count. -/
theorem not_requestsSsl_of_packet
    {client later : Client}
    {packet : Bytes}
    (read : startup client = .value (packet, later))
    (other : ∀ request : EncryptionRequest, packet ≠ request.packet)
    (count : Nat) :
    ¬ RequestsSsl (count + 1) client.bytes := by
  refine not_requestsSsl ?_ count
  intro request rest shape
  rw [startup_request shape] at read
  cases read
  exact other request rfl

/--
The loop panics exactly with an acceptor and one `SSLRequest` more than the
stream endures.
-/
theorem negotiate_panics (n : Negotiation) :
    (negotiate acceptor cancel n).1.panics = true ↔
      acceptor = true ∧
        RequestsSsl (n.stream.endures + 1) n.client.bytes := by
  fun_induction negotiate acceptor cancel n with
  | case1 n message read =>
      refine iff_of_false Bool.false_ne_true ?_
      rintro ⟨-, requests⟩
      refine not_requestsSsl ?_ n.stream.endures requests
      intro request rest shape
      rw [startup_request shape] at read
      cases read
  | case2 n message read =>
      have quiet := startup_panics n.client
      rw [read] at quiet
      cases quiet
  | case3 n packet later read flow reply handled =>
      obtain ⟨shape, atLeast, word⟩ := startup_value read
      rcases request_or_other packet with rfl | rfl | other
      · -- Only a second `SSLRequest` leaves the loop, and it panics.
        rw [handle_ssl] at handled
        cases isSet : acceptor with
        | false =>
            simp [isSet] at handled
        | true =>
            cases layer : n.stream with
            | plain =>
                simp [isSet, layer] at handled
            | tls =>
                simp only [isSet, layer, if_true, Reaction.leave.injEq] at handled
                rw [← handled.1, shape]
                refine iff_of_true rfl ⟨rfl, ?_⟩
                rw [requestsSsl_packet]
                exact ⟨[], later.bytes, rfl, Nat.zero_le _⟩
      · rw [handle_gss] at handled
        cases handled
      · obtain ⟨_, left, quiet⟩ :=
          handle_other acceptor cancel atLeast word other n.stream
        rw [handled] at left
        cases left
        refine iff_of_false (by simp [quiet]) ?_
        rintro ⟨-, requests⟩
        exact not_requestsSsl_of_packet read other _ requests
  | case4 n packet later read reply stream handled inductionHypothesis =>
      obtain ⟨shape, atLeast, word⟩ := startup_value read
      rw [inductionHypothesis]
      rcases request_or_other packet with rfl | rfl | other
      · rw [handle_ssl] at handled
        cases isSet : acceptor with
        | false =>
            simp
        | true =>
            cases layer : n.stream with
            | plain =>
                simp only [isSet, layer, if_true, Reaction.again.injEq] at handled
                rw [← handled.2, shape, requestsSsl_packet]
                rfl
            | tls =>
                simp [isSet, layer] at handled
      · rw [handle_gss] at handled
        cases handled
        rw [shape, requestsSsl_packet]
        rfl
      · obtain ⟨_, left, -⟩ :=
          handle_other acceptor cancel atLeast word other n.stream
        rw [handled] at left
        cases left

/-- The packet the loop breaks with is the one it has read. -/
theorem packet_of_handle
    {stream layer : Stream}
    {packet bytes reply : Bytes}
    (handled :
      handle acceptor cancel stream packet =
        .leave (.value (.packet bytes layer)) reply) :
    bytes = packet := by
  unfold handle at handled
  generalize slice packet 4 8 = code at handled
  cases code with
  | panic message =>
      cases handled
  | error message =>
      cases handled
  | value word =>
      dsimp only at handled
      repeat' split at handled
      all_goals cases handled
      rfl

/-- The packet the loop breaks with has its length word and its code. -/
theorem length_of_negotiate
    {n : Negotiation}
    {packet : Bytes}
    {stream : Stream}
    (broke :
      (negotiate acceptor cancel n).1 = .value (.packet packet stream)) :
    8 ≤ packet.length := by
  fun_induction negotiate acceptor cancel n with
  | case1 n message read =>
      cases broke
  | case2 n message read =>
      cases broke
  | case3 n read later isRead flow reply handled =>
      simp only at broke
      rw [broke] at handled
      rw [packet_of_handle acceptor cancel handled]
      exact (startup_value isRead).2.1
  | case4 n read later isRead reply stream handled inductionHypothesis =>
      exact inductionHypothesis broke

end

/-- Startup parameters are read without a panic. -/
theorem parameters_panics (m : StartupMetadata) (rest : Bytes) :
    (parameters m rest).panics = false := by
  fun_induction parameters m rest with
  | case1 => rfl
  | case2 => rfl
  | case3 => rfl
  | case4 => rfl
  | case5 _ _ _ _ _ _ _ _ _ inductionHypothesis =>
      exact inductionHypothesis

/-- The parameters of a packet with a code are read without a panic. -/
theorem metadata_panics
    {packet : Bytes}
    (atLeast : 8 ≤ packet.length) :
    (metadata packet).panics = false := by
  rw [metadata, slice_of_le atLeast (Nat.le_refl _)]
  exact parameters_panics _ _

/-- The opening of a connection panics only in the negotiation loop. -/
theorem opening_panics
    (acceptor : Bool)
    (cancel : Bytes → Except String Unit)
    (client : Client) :
    (opening acceptor cancel client).panics = true ↔
      acceptor = true ∧ RequestsSsl 2 client.bytes := by
  have loop := negotiate_panics acceptor cancel { client := client }
  have length {packet : Bytes} {stream : Stream}
      (broke :
        (negotiate acceptor cancel { client := client }).1 =
          .value (.packet packet stream)) :
      8 ≤ packet.length :=
    length_of_negotiate acceptor cancel broke
  have bound : Stream.plain.endures + 1 = 2 := rfl
  rw [bound] at loop
  rw [← loop, opening]
  generalize (negotiate acceptor cancel { client := client }).1 = flow at *
  match flow with
  | .error _ =>
      rfl
  | .panic _ =>
      rfl
  | .value .cancelled =>
      rfl
  | .value (.packet packet stream) =>
      have quiet := metadata_panics (length rfl)
      simp only [Flow.bind]
      cases read : metadata packet with
      | panic _ =>
          rw [read] at quiet
          cases quiet
      | error _ =>
          simp [Flow.panics]
      | value _ =>
          simp [Flow.panics]

/-! ## The accept loop -/

/-- How `serve` ends. -/
inductive ServeEnd where
  | shutdown
  | acceptError (message : String)
  /-- `result?` on a connection task that panicked. -/
  | joinError (id : Nat)
  deriving Repr, DecidableEq

/-- What one turn of `serve` meets. -/
inductive ServeEvent where
  | shutdown
  | accepted (client : Client)
  | acceptFailed (message : String)
  /-- The task at this place of the join set has ended. -/
  | joined (place : Nat)

/-- The variables of `serve`. -/
structure Proxy where
  nextId : Nat := 0
  tasks : List (Nat × Client) := []
  result : Option ServeEnd := none

namespace Proxy

section

variable (acceptor : Bool) (cancel : Bytes → Except String Unit)

/-- One turn of `serve`. -/
def step (p : Proxy) (event : ServeEvent) : Proxy :=
  if p.result.isSome then
    p
  else
    match event with
    | .shutdown => { p with tasks := [], result := some .shutdown }
    | .acceptFailed message =>
        { p with result := some (.acceptError message) }
    | .accepted client =>
        { p with
          nextId := p.nextId + 1
          tasks := p.tasks ++ [(p.nextId + 1, client)] }
    | .joined place =>
        match p.tasks[place]? with
        | none => p
        | some (id, client) =>
            { p with
              tasks := p.tasks.eraseIdx place
              result :=
                if (opening acceptor cancel client).panics then
                  some (.joinError id)
                else
                  none }

/-- A whole run of `serve`. -/
def serve (events : List ServeEvent) : Proxy :=
  Machine.run (step acceptor cancel) {} events

/-- `serve` joins a client that asked for encryption twice. -/
def JoinsTwiceAsking (events : List ServeEvent) : Prop :=
  ∃ before place after id client,
    events = before ++ .joined place :: after ∧
      (serve acceptor cancel before).result = none ∧
      (serve acceptor cancel before).tasks[place]? = some (id, client) ∧
      acceptor = true ∧ RequestsSsl 2 client.bytes

/-- One more event: the join happens now, or it happened before. -/
theorem joinsTwiceAsking_concat
    {events : List ServeEvent}
    {event : ServeEvent} :
    JoinsTwiceAsking acceptor cancel (events ++ [event]) ↔
      (∃ place id client,
        event = .joined place ∧
          (serve acceptor cancel events).result = none ∧
          (serve acceptor cancel events).tasks[place]? = some (id, client) ∧
          acceptor = true ∧ RequestsSsl 2 client.bytes) ∨
        JoinsTwiceAsking acceptor cancel events := by
  constructor
  · rintro ⟨before, place, after, id, client, shape, running, task, asks⟩
    rcases Queue.eq_nil_or_concat after with rfl | ⟨earlier, last, rfl⟩
    · left
      obtain ⟨rfl, isLast⟩ := List.append_inj' shape rfl
      exact ⟨place, id, client, by simpa using isLast, running, task, asks⟩
    · right
      rw [← List.cons_append, ← List.append_assoc] at shape
      obtain ⟨rfl, -⟩ := List.append_inj' shape rfl
      exact ⟨before, place, earlier, id, client, rfl, running, task, asks⟩
  · rintro (⟨place, id, client, rfl, running, task, asks⟩ |
      ⟨before, place, after, id, client, rfl, running, task, asks⟩)
    · exact ⟨events, place, [], id, client, rfl, running, task, asks⟩
    · exact ⟨before, place, after ++ [event], id, client, by simp, running,
        task, asks⟩

/-- What one turn does to the end of `serve`. -/
theorem step_joinError
    {p : Proxy}
    {event : ServeEvent} :
    (∃ id, (p.step acceptor cancel event).result = some (.joinError id)) ↔
      (∃ id, p.result = some (.joinError id)) ∨
        ∃ place id client,
          event = .joined place ∧ p.result = none ∧
            p.tasks[place]? = some (id, client) ∧
            (opening acceptor cancel client).panics = true := by
  unfold step
  cases running : p.result with
  | some finished =>
      simp [running]
  | none =>
      cases event with
      | shutdown =>
          simp
      | accepted client =>
          simp
      | acceptFailed message =>
          simp
      | joined place =>
          cases task : p.tasks[place]? with
          | none =>
              simp [running, task]
          | some entry =>
              cases panicked : (opening acceptor cancel entry.2).panics with
              | true =>
                  simp only [Option.isSome_none, Bool.false_eq_true, if_false,
                    task, panicked, if_true]
                  refine iff_of_true ⟨entry.1, rfl⟩ (Or.inr ?_)
                  exact ⟨place, entry.1, entry.2, rfl, trivial, task,
                    panicked⟩
              | false =>
                  simp only [Option.isSome_none, Bool.false_eq_true, if_false,
                    task, panicked]
                  refine iff_of_false ?_ ?_
                  · rintro ⟨id, ended⟩
                    cases ended
                  · rintro (⟨id, ended⟩ |
                      ⟨place', id, client, same, -, task', panics⟩)
                    · cases ended
                    · cases same
                      rw [task] at task'
                      cases task'
                      rw [panicked] at panics
                      cases panics

/-- `serve` is ended by a client exactly if it joins one that asked twice. -/
theorem serve_joinError (events : List ServeEvent) :
    (∃ id, (serve acceptor cancel events).result = some (.joinError id)) ↔
      JoinsTwiceAsking acceptor cancel events := by
  refine Machine.run_induction
    (motive := fun events (p : Proxy) =>
      (∃ id, p.result = some (.joinError id)) ↔
        JoinsTwiceAsking acceptor cancel events) ?_ ?_ events
  · refine iff_of_false ?_ ?_
    · rintro ⟨id, ended⟩
      cases ended
    · rintro ⟨before, place, after, id, client, shape, -⟩
      simp at shape
  · intro before event inductionHypothesis
    rw [step_joinError, joinsTwiceAsking_concat, inductionHypothesis, or_comm]
    simp only [opening_panics]
    rfl

/--
The opening of a connection does not panic, for any bytes a client sends, exactly
if TLS is not configured or the client asks for it at most once; and no client
ends `serve` exactly if none of those it joins has asked twice.
-/
theorem startup_panic_free :
    (∀ client : Client,
      (∀ message, opening acceptor cancel client ≠ .panic message) ↔
        ¬ (acceptor = true ∧ RequestsSsl 2 client.bytes)) ∧
      (∀ events : List ServeEvent,
        (∀ id, (serve acceptor cancel events).result ≠ some (.joinError id)) ↔
          ¬ JoinsTwiceAsking acceptor cancel events) := by
  refine ⟨?_, ?_⟩
  · intro client
    rw [← opening_panics acceptor cancel client]
    cases ends : opening acceptor cancel client with
    | value found =>
        simp [Flow.panics]
    | error message =>
        simp [Flow.panics]
    | panic message =>
        simp [Flow.panics]
  · intro events
    rw [← serve_joinError, not_exists]

end

/-- A client that asks for TLS, gets it, and asks again. -/
def twiceAsking : Client where
  bytes := EncryptionRequest.ssl.packet ++ EncryptionRequest.ssl.packet

theorem startup_panics_twiceAsking :
    (opening true (fun _ => .ok ()) twiceAsking).panics = true ∧
      (serve true (fun _ => .ok ())
          [.accepted twiceAsking, .joined 0]).result =
        some (.joinError 1) := by
  have asks : RequestsSsl 2 twiceAsking.bytes :=
    ⟨[.ssl, .ssl], [], rfl, by decide⟩
  have panics :=
    (opening_panics true (fun _ => .ok ()) twiceAsking).mpr ⟨rfl, asks⟩
  refine ⟨panics, ?_⟩
  simp [serve, Machine.run, step, panics]

end Proxy

end Pgfault
