import Pgfault.Startup

namespace Pgfault

/-!
# What the negotiation accepts

The negotiation loop lets a client through with requests for encryption, in any
number and order, and a protocol 3.0 startup packet behind them; or it takes a
cancellation in that place.  Every request gets one byte, and nothing else is
written to the client.  With an acceptor there is room for one `SSLRequest`.
-/

/-- A startup packet with its length word and a code. -/
structure IsPacket (packet : Bytes) (code : Nat) : Prop where
  atLeast : 8 ≤ packet.length
  atMost : packet.length ≤ startupLimit
  word : packet.take 4 = beBytes packet.length
  code : fromBeBytes ((packet.drop 4).take 4) = code

/-- The byte that answers a request for encryption. -/
def EncryptionRequest.answer (acceptor : Bool) : EncryptionRequest → UInt8
  | .ssl => if acceptor then 83 else 78
  | .gss => 78

/-- The stream behind a request for encryption. -/
def Stream.after (acceptor : Bool) (stream : Stream) :
    EncryptionRequest → Stream
  | .ssl => if acceptor then .tls else stream
  | .gss => stream

/-- Requests a stream can take: with an acceptor at most one `SSLRequest`. -/
def Stream.Endures
    (acceptor : Bool)
    (stream : Stream)
    (requests : List EncryptionRequest) : Prop :=
  acceptor = true → requests.count .ssl ≤ stream.endures

/-- The requests, and what has been answered, when the loop reads a packet. -/
structure Asked
    (acceptor : Bool)
    (n : Negotiation)
    (requests : List EncryptionRequest)
    (behind : Bytes)
    (stream : Stream)
    (replies : Bytes) : Prop where
  bytes :
    n.client.bytes = requests.flatMap EncryptionRequest.packet ++ behind
  endures : n.stream.Endures acceptor requests
  stream : stream = requests.foldl (Stream.after acceptor) n.stream
  replies :
    replies = n.replies ++ requests.map (EncryptionRequest.answer acceptor)

/-- `startup` reads a packet off the front. -/
theorem startup_packet
    {client : Client}
    {packet rest : Bytes}
    {code : Nat}
    (isPacket : IsPacket packet code)
    (shape : client.bytes = packet ++ rest) :
    startup client = .value (packet, { client with bytes := rest }) := by
  have atLeast := isPacket.atLeast
  have atMost := isPacket.atMost
  have word : startupLength client.bytes = packet.length := by
    rw [startupLength, shape, List.take_append_of_le_length (by omega),
      isPacket.word]
    unfold startupLimit at atMost
    exact fromBeBytes_beBytes (by omega)
  have length : client.bytes.length = packet.length + rest.length := by
    rw [shape, List.length_append]
  rw [startup_eq, word, if_neg (by omega), if_pos ⟨atLeast, atMost⟩,
    if_neg (by omega), shape, List.take_left, List.drop_left]

/-- A read packet is not longer than the limit. -/
theorem startup_atMost
    {client later : Client}
    {packet : Bytes}
    (read : startup client = .value (packet, later)) :
    packet.length ≤ startupLimit := by
  rw [startup_eq] at read
  split at read
  · cases read
  · split at read
    · rename_i window
      split at read
      · cases read
      · cases read
        rw [List.length_take]
        exact Nat.le_trans (Nat.min_le_left _ _) window.2
    · cases read

section

variable (acceptor : Bool) (cancel : Bytes → Except String Unit)

/-- A packet that leaves the loop. -/
theorem negotiate_leave
    {n : Negotiation}
    {packet : Bytes}
    {later : Client}
    {flow : Flow Negotiated}
    (read : startup n.client = .value (packet, later))
    (left : handle acceptor cancel n.stream packet = .leave flow []) :
    negotiate acceptor cancel n = (flow, n.replies) := by
  unfold negotiate
  split
  · rename_i failed
    rw [read] at failed
    cases failed
  · rename_i failed
    rw [read] at failed
    cases failed
  · rename_i isRead
    rw [read] at isRead
    cases isRead
    rw [left]
    simp only [List.append_nil]

/-- A packet that keeps the loop going. -/
theorem negotiate_again
    {n : Negotiation}
    {packet reply : Bytes}
    {later : Client}
    {stream : Stream}
    (read : startup n.client = .value (packet, later))
    (goesOn : handle acceptor cancel n.stream packet = .again reply stream) :
    negotiate acceptor cancel n =
      negotiate acceptor cancel
        { stream := stream
          client := later
          replies := n.replies ++ reply } := by
  conv_lhs => unfold negotiate
  split
  · rename_i failed
    rw [read] at failed
    cases failed
  · rename_i failed
    rw [read] at failed
    cases failed
  · rename_i isRead
    rw [read] at isRead
    cases isRead
    rw [goesOn]

/-- A request the stream can take is answered with one byte. -/
theorem handle_request
    {request : EncryptionRequest}
    {stream : Stream}
    {requests : List EncryptionRequest}
    (endures : stream.Endures acceptor (request :: requests)) :
    handle acceptor cancel stream request.packet =
        .again [request.answer acceptor] (stream.after acceptor request) ∧
      (stream.after acceptor request).Endures acceptor requests := by
  cases request with
  | gss =>
      refine ⟨handle_gss acceptor cancel stream, ?_⟩
      intro isSet
      have few := endures isSet
      rw [List.count_cons_of_ne (by decide)] at few
      exact few
  | ssl =>
      rw [handle_ssl]
      cases acceptor with
      | false =>
          exact ⟨rfl, by simp [Stream.Endures]⟩
      | true =>
          have few := endures rfl
          rw [List.count_cons_self] at few
          cases stream with
          | plain =>
              refine ⟨rfl, fun _ => ?_⟩
              simp only [Stream.endures] at few
              exact Nat.le_of_succ_le_succ few
          | tls =>
              simp [Stream.endures] at few

/-- The loop answers the requests in front and goes on behind them. -/
theorem negotiate_asked
    {n : Negotiation}
    {requests : List EncryptionRequest}
    {behind : Bytes}
    {stream : Stream}
    {replies : Bytes}
    (asked : Asked acceptor n requests behind stream replies) :
    negotiate acceptor cancel n =
      negotiate acceptor cancel
        { stream := stream
          client := { n.client with bytes := behind }
          replies := replies } := by
  induction requests generalizing n with
  | nil =>
      obtain ⟨bytes, -, rfl, rfl⟩ := asked
      simp only [List.flatMap_nil, List.nil_append] at bytes
      rw [← bytes]
      simp
  | cons request rest inductionHypothesis =>
      obtain ⟨bytes, endures, isStream, isReplies⟩ := asked
      rw [List.flatMap_cons, List.append_assoc] at bytes
      obtain ⟨handled, endures⟩ := handle_request acceptor cancel endures
      rw [negotiate_again acceptor cancel (startup_request bytes) handled]
      refine inductionHypothesis ⟨rfl, endures, isStream, ?_⟩
      rw [isReplies]
      simp

/-- One more request in front. -/
theorem Asked.cons
    {n : Negotiation}
    {request : EncryptionRequest}
    {later : Client}
    {requests : List EncryptionRequest}
    {behind : Bytes}
    {stream : Stream}
    {replies : Bytes}
    (shape : n.client.bytes = request.packet ++ later.bytes)
    (room :
      acceptor = true → request = .ssl → n.stream = .plain)
    (asked :
      Asked acceptor
        { stream := n.stream.after acceptor request
          client := later
          replies := n.replies ++ [request.answer acceptor] }
        requests behind stream replies) :
    Asked acceptor n (request :: requests) behind stream replies where
  bytes := by
    rw [shape, asked.bytes]
    simp
  endures := by
    intro isSet
    have few := asked.endures isSet
    cases request with
    | gss =>
        rw [List.count_cons_of_ne (by decide)]
        exact few
    | ssl =>
        rw [List.count_cons_self]
        rw [room isSet rfl]
        simp only [Stream.after, isSet, if_true, Stream.endures] at few ⊢
        omega
  stream := asked.stream
  replies := by
    rw [asked.replies]
    simp

/-- Behind a packet that is accepted no answer is written. -/
theorem reply_of_handle
    {packet reply : Bytes}
    (atLeast : 8 ≤ packet.length)
    (word : packet.take 4 = beBytes packet.length)
    {stream : Stream}
    {found : Negotiated}
    (handled :
      handle acceptor cancel stream packet = .leave (.value found) reply) :
    reply = [] := by
  rcases request_or_other packet with rfl | rfl | other
  · rw [handle_ssl] at handled
    cases acceptor <;> cases stream <;> cases handled
  · rw [handle_gss] at handled
    cases handled
  · obtain ⟨_, left, -⟩ :=
      handle_other acceptor cancel atLeast word other stream
    rw [handled] at left
    exact (Reaction.leave.inj left).2

/-- Where the loop leaves, it has answered requests and read one more packet. -/
theorem exists_asked
    {n : Negotiation}
    {found : Negotiated}
    {replies : Bytes}
    (ended : negotiate acceptor cancel n = (.value found, replies)) :
    ∃ requests packet rest stream,
      Asked acceptor n requests (packet ++ rest) stream replies ∧
        8 ≤ packet.length ∧ packet.length ≤ startupLimit ∧
        packet.take 4 = beBytes packet.length ∧
        handle acceptor cancel stream packet = .leave (.value found) [] := by
  fun_induction negotiate acceptor cancel n with
  | case1 n message read =>
      cases ended
  | case2 n message read =>
      cases ended
  | case3 n packet later read flow reply handled =>
      cases ended
      obtain ⟨shape, atLeast, word⟩ := startup_value read
      obtain rfl := reply_of_handle acceptor cancel atLeast word handled
      refine ⟨[], packet, later.bytes, n.stream, ⟨?_, ?_, rfl, ?_⟩, atLeast,
        startup_atMost read, word, handled⟩
      · simpa using shape
      · intro _
        exact Nat.zero_le _
      · simp
  | case4 n packet later read reply stream handled inductionHypothesis =>
      obtain ⟨shape, atLeast, word⟩ := startup_value read
      obtain ⟨requests, last, rest, stream', asked, isPacket⟩ :=
        inductionHypothesis ended
      rcases request_or_other packet with rfl | rfl | other
      · -- The loop goes on behind an `SSLRequest` without an acceptor, or once.
        rw [handle_ssl] at handled
        refine ⟨.ssl :: requests, last, rest, stream', ?_, isPacket⟩
        cases isSet : acceptor with
        | false =>
            subst isSet
            cases handled
            exact asked.cons false shape (by simp)
        | true =>
            subst isSet
            cases layer : n.stream with
            | tls =>
                simp [layer] at handled
            | plain =>
                simp only [layer, if_true, Reaction.again.injEq] at handled
                obtain ⟨rfl, rfl⟩ := handled
                exact asked.cons true shape (fun _ _ => layer)
      · rw [handle_gss] at handled
        cases handled
        exact ⟨.gss :: requests, last, rest, stream',
          asked.cons acceptor shape (fun _ isSsl => by cases isSsl), isPacket⟩
      · obtain ⟨_, left, -⟩ :=
          handle_other acceptor cancel atLeast word other n.stream
        rw [handled] at left
        cases left

/-- The packets the loop leaves with. -/
theorem handle_value_iff
    {packet : Bytes}
    (atLeast : 8 ≤ packet.length)
    {stream : Stream}
    {found : Negotiated} :
    handle acceptor cancel stream packet = .leave (.value found) [] ↔
      (found = .packet packet stream ∧
          fromBeBytes ((packet.drop 4).take 4) = PROTOCOL_V3) ∨
        (found = .cancelled ∧
          fromBeBytes ((packet.drop 4).take 4) = CANCEL_REQUEST ∧
          packet.length = 16 ∧ cancel packet = .ok ()) := by
  have apart :
      PROTOCOL_V3 ≠ SSL_REQUEST ∧ PROTOCOL_V3 ≠ GSS_REQUEST ∧
        PROTOCOL_V3 ≠ CANCEL_REQUEST ∧ CANCEL_REQUEST ≠ SSL_REQUEST ∧
        CANCEL_REQUEST ≠ GSS_REQUEST := by
    decide
  unfold handle
  rw [slice_code atLeast]
  simp only
  generalize fromBeBytes ((packet.drop 4).take 4) = code
  by_cases isSsl : code = SSL_REQUEST
  · rw [if_pos isSsl]
    subst isSsl
    refine iff_of_false ?_ ?_
    · split
      · simp
      · split
        · cases stream <;> simp [Stream.intoPlain]
        · simp
    · rintro (⟨-, same⟩ | ⟨-, same, -⟩)
      · exact apart.1 same.symm
      · exact apart.2.2.2.1 same.symm
  · rw [if_neg isSsl]
    by_cases isGss : code = GSS_REQUEST
    · rw [if_pos isGss]
      subst isGss
      refine iff_of_false ?_ ?_
      · split <;> simp
      · rintro (⟨-, same⟩ | ⟨-, same, -⟩)
        · exact apart.2.1 same.symm
        · exact apart.2.2.2.2 same.symm
    · rw [if_neg isGss]
      by_cases isCancel : code = CANCEL_REQUEST
      · rw [if_pos isCancel]
        have unlike : code ≠ PROTOCOL_V3 := by
          rw [isCancel]
          exact apart.2.2.1.symm
        simp only [isCancel, apart.2.2.1.symm, and_false, false_or, true_and]
        by_cases sixteen : packet.length = 16
        · cases forwarded : cancel packet with
          | ok done =>
              simp [sixteen, eq_comm]
          | error message =>
              simp [sixteen]
        · simp [sixteen]
      · rw [if_neg isCancel]
        by_cases isStartup : code = PROTOCOL_V3
        · rw [if_pos isStartup]
          simp [isStartup, apart.2.2.1, eq_comm]
        · rw [if_neg isStartup]
          simp [isStartup, isCancel]

/-- The stream is encrypted if an `SSLRequest` was, behind an acceptor. -/
theorem foldl_after_eq_tls
    (requests : List EncryptionRequest)
    (from_ : Stream) :
    requests.foldl (Stream.after acceptor) from_ = .tls ↔
      from_ = .tls ∨ acceptor = true ∧ .ssl ∈ requests := by
  induction requests generalizing from_ with
  | nil =>
      simp
  | cons request rest inductionHypothesis =>
      rw [List.foldl_cons, inductionHypothesis]
      cases request <;> cases acceptor <;> simp [Stream.after]

/--
The negotiation accepts exactly its grammar.  It breaks with a startup packet if
and only if what the client sends is some requests for encryption, that packet
with its own length and the code of protocol 3.0, and anything behind it, and it
ends with a forwarded cancellation if and only if a 16-byte `CancelRequest`
stands in the place of the packet.  In both cases it has written one byte for
each request, and with an acceptor at most one of these was an `SSLRequest`,
which is when the stream is encrypted.
-/
theorem negotiation_grammar (client : Client) (replies : Bytes) :
    (∀ packet stream,
      negotiate acceptor cancel { client := client } =
          (.value (.packet packet stream), replies) ↔
        ∃ (requests : List EncryptionRequest) (rest : Bytes),
          client.bytes =
              requests.flatMap EncryptionRequest.packet ++ (packet ++ rest) ∧
            IsPacket packet PROTOCOL_V3 ∧
            (acceptor = true → requests.count .ssl ≤ 1) ∧
            (stream = .tls ↔ acceptor = true ∧ .ssl ∈ requests) ∧
            replies = requests.map (EncryptionRequest.answer acceptor)) ∧
      (negotiate acceptor cancel { client := client } =
          (.value .cancelled, replies) ↔
        ∃ (requests : List EncryptionRequest) (packet rest : Bytes),
          client.bytes =
              requests.flatMap EncryptionRequest.packet ++ (packet ++ rest) ∧
            IsPacket packet CANCEL_REQUEST ∧ packet.length = 16 ∧
            cancel packet = .ok () ∧
            (acceptor = true → requests.count .ssl ≤ 1) ∧
            replies = requests.map (EncryptionRequest.answer acceptor)) := by
  refine ⟨?_, ?_⟩
  · intro packet stream
    constructor
    · intro ended
      obtain ⟨requests, last, rest, found, asked, atLeast, atMost, word,
        handled⟩ := exists_asked acceptor cancel ended
      rcases (handle_value_iff acceptor cancel atLeast).mp handled with
          ⟨isPacket, code⟩ | ⟨isCancelled, -⟩
      · cases isPacket
        refine ⟨requests, rest, asked.bytes, ⟨atLeast, atMost, word, code⟩,
          asked.endures, ?_, asked.replies⟩
        rw [asked.stream, foldl_after_eq_tls]
        simp
      · cases isCancelled
    · rintro ⟨requests, rest, bytes, isPacket, few, isLayer, isReplies⟩
      have isStream :
          stream = requests.foldl (Stream.after acceptor) .plain := by
        have folded := foldl_after_eq_tls acceptor requests .plain
        simp only [reduceCtorEq, false_or] at folded
        rw [← isLayer] at folded
        cases stream <;>
          cases last : requests.foldl (Stream.after acceptor) .plain <;>
          simp [last] at folded ⊢
      have asked :
          Asked acceptor { client := client } requests (packet ++ rest) stream
            replies :=
        ⟨bytes, few, isStream, isReplies⟩
      rw [negotiate_asked acceptor cancel asked]
      refine negotiate_leave acceptor cancel
        (startup_packet isPacket rfl) ?_
      exact (handle_value_iff acceptor cancel isPacket.atLeast).mpr
        (Or.inl ⟨rfl, isPacket.code⟩)
  · constructor
    · intro ended
      obtain ⟨requests, last, rest, found, asked, atLeast, atMost, word,
        handled⟩ := exists_asked acceptor cancel ended
      rcases (handle_value_iff acceptor cancel atLeast).mp handled with
          ⟨isPacket, -⟩ | ⟨-, code, sixteen, forwarded⟩
      · cases isPacket
      · exact ⟨requests, last, rest, asked.bytes,
          ⟨atLeast, atMost, word, code⟩, sixteen, forwarded, asked.endures,
          asked.replies⟩
    · rintro ⟨requests, packet, rest, bytes, isPacket, sixteen, forwarded, few,
        isReplies⟩
      have asked :
          Asked acceptor { client := client } requests (packet ++ rest)
            (requests.foldl (Stream.after acceptor) .plain) replies :=
        ⟨bytes, few, rfl, isReplies⟩
      rw [negotiate_asked acceptor cancel asked]
      refine negotiate_leave acceptor cancel
        (startup_packet isPacket rfl) ?_
      exact (handle_value_iff acceptor cancel isPacket.atLeast).mpr
        (Or.inr ⟨rfl, isPacket.code, sixteen, forwarded⟩)

end

end Pgfault
