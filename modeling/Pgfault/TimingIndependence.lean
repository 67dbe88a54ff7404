import Pgfault.Board
import Pgfault.CommitSoundness
import Pgfault.ConformingServer
import Pgfault.PipelineAlignment
import Pgfault.Scenario

namespace Pgfault

open Queue ConnectionState

/-!
# Timing independence

The two directions of a session are read in some interleaving.  Every client
frame works at the back of the board and every reply at its front, so the
interleaving could only show in three places: an `Execute` looks its portal up
in a map that `ErrorResponse` and `ReadyForQuery` reset, a reply may name a
statement that has not been seen yet, and an acknowledgement may find no pending
change.  An interleaving that is `Steady` avoids all three.

All steady interleavings of one session raise the same events: those of the
client frames alone, and those of the replies once the whole client side has
been seen.
-/

/-- Two observers of one session: of all calls, and of the client frames. -/
structure Timed where
  state : ConnectionState
  /-- What the client frames alone make of the observer. -/
  sent : ConnectionState

namespace Timed

/-- The client frames among some calls. -/
def clientSide (calls : List Call) : List Frame :=
  calls.filterMap fun
    | .frontend f => some f
    | _ => none

/-- The server frames among some calls. -/
def serverSide (calls : List Call) : List Frame :=
  calls.filterMap fun
    | .backend f => some f
    | _ => none

/-- Whether an acknowledgement finds the change it acknowledges. -/
def acknowledges : Option Mutation → BackendTag → Bool
  | some (.parse _ _), .parseComplete => true
  | some (.bind _ _), .bindComplete => true
  | some (.close _ _), .closeComplete => true
  | _, .parseComplete => false
  | _, .bindComplete => false
  | _, .closeComplete => false
  | _, _ => true

/-- The change that waits for the next acknowledgement. -/
def pending (s : ConnectionState) : Option Mutation :=
  s.cycles.head?.bind fun c => c.mutations.head?

/--
A call whose place in the interleaving does not show.  An `Execute` finds its
portal as the client frames before it left it, although replies in between may
have reset the map; a reply finds the statement or the complete cycle it
answers, and an acknowledgement its change.
-/
def Steady (t : Timed) : Call → Prop
  | .frontend f =>
      f.frontendTag = .execute →
      ∀ named ∈ cstr f.body, t.state.portals named.1 = t.sent.portals named.1
  | .forwarded => False
  | .backend f =>
      t.state.board.Answerable f ∧
        acknowledges (pending t.state) f.backendTag = true

/-- The names and coordinates of the events of every client frame. -/
def clientKeys
    (sha256 : Bytes → String)
    (s : ConnectionState) : List Call → List (List (String × Coordinates))
  | [] => []
  | .frontend f :: later =>
      (s.frontend sha256 f).1.map Event.key ::
        clientKeys sha256 (s.frontend sha256 f).2 later
  | .forwarded :: later => clientKeys sha256 s.forwarded.2 later
  | .backend f :: later => clientKeys sha256 (s.backend f).2 later

/-- The names and coordinates of the events of every server frame. -/
def serverKeys
    (sha256 : Bytes → String)
    (s : ConnectionState) : List Call → List (List (String × Coordinates))
  | [] => []
  | .frontend f :: later => serverKeys sha256 (s.frontend sha256 f).2 later
  | .forwarded :: later => serverKeys sha256 s.forwarded.2 later
  | .backend f :: later =>
      (s.backend f).1.map Event.key :: serverKeys sha256 (s.backend f).2 later

section

variable (sha256 : Bytes → String)

/-- One call. -/
def step (t : Timed) : Call → Timed
  | .frontend f =>
      ⟨(t.state.frontend sha256 f).2, (t.sent.frontend sha256 f).2⟩
  | .forwarded => ⟨t.state.forwarded.2, t.sent⟩
  | .backend f => ⟨(t.state.backend f).2, t.sent⟩

/-- The edits the client frames of a session make. -/
def edits (s : ConnectionState) : List Frame → List Edit
  | [] => []
  | f :: later =>
      (s.edit sha256 f).toList ++ edits (s.frontend sha256 f).2 later

/-- The names and coordinates of the replies on a board. -/
def replies (b : Board) : List Frame → List (List (String × Coordinates))
  | [] => []
  | f :: later => b.signature f :: replies (b.serve f) later

/-! ## What one call passes on -/

/-- Observers whose difference does not show to the client. -/
structure Tracked (t : Timed) : Prop where
  reliable : t.state.reliable = true
  sameBack : t.state.board.SameBack t.sent.board

/-- The statement of a frame depends on the portal it names only. -/
theorem resolve_eq
    {t : Timed}
    {f : Frame}
    (steady : t.Steady (.frontend f)) :
    f.frontendTag = .query ∨ f.frontendTag = .execute →
    t.state.resolve sha256 f = t.sent.resolve sha256 f := by
  rintro (query | execute)
  · simp [resolve, query]
  · have found := steady execute
    unfold resolve
    cases named : cstr f.body with
    | none =>
        rfl
    | some pair =>
        simp [execute, found pair named]

/-- A steady client frame means the same to both observers. -/
theorem client_eq
    {t : Timed}
    {f : Frame}
    (steady : t.Steady (.frontend f)) :
    t.state.edit sha256 f = t.sent.edit sha256 f ∧
      (t.state.receive sha256 f).2 = (t.sent.receive sha256 f).2 := by
  have same := resolve_eq sha256 steady
  refine ⟨?_, ?_⟩
  · unfold edit noted
    split
    · next statement => rw [same statement]
    · rfl
  · unfold receive
    cases tag : f.frontendTag
    case query =>
      simp only [same (Or.inl tag)]
    case execute =>
      simp only [same (Or.inr tag)]
    all_goals rfl

/-- A frame that leaves the queue alone raises nothing. -/
theorem receive_of_untouched
    {s : ConnectionState}
    {f : Frame}
    (untouched : touch f = none) :
    (s.receive sha256 f).2 = [] := by
  unfold touch at untouched
  unfold receive
  cases tag : f.frontendTag <;> simp [tag] at untouched ⊢

/-- A steady client frame raises what the client frames alone would raise. -/
theorem Tracked.client_keys
    {t : Timed}
    {f : Frame}
    (tracked : Tracked t)
    (steady : t.Steady (.frontend f)) :
    (t.state.frontend sha256 f).1.map Event.key =
      (t.sent.frontend sha256 f).1.map Event.key := by
  obtain ⟨sameEdit, sameNames⟩ := client_eq sha256 steady
  rw [frontend_keys, frontend_keys, sameNames]
  cases touched : touch f with
  | none =>
      simp only [receive_of_untouched sha256 touched, List.map_nil]
  | some how =>
      obtain ⟨e, isEdit⟩ : ∃ e, t.sent.edit sha256 f = some e :=
        ⟨_, by rw [edit, touched]; rfl⟩
      obtain ⟨v, left, right⟩ := Board.back_amend tracked.sameBack e
      have located := Board.coordinates_of_back left right
      rw [board_accept, board_accept, sameEdit, isEdit]
      simp only [Option.elim_some, located]

theorem Tracked.client
    {t : Timed}
    {f : Frame}
    (tracked : Tracked t)
    (steady : t.Steady (.frontend f)) :
    Tracked (t.step sha256 (.frontend f)) := by
  obtain ⟨sameEdit, -⟩ := client_eq sha256 steady
  simp only [step]
  refine ⟨?_, ?_⟩
  · rw [frontend_state, recount_reliable,
      (accept_grows sha256 t.state f).reliable]
    exact tracked.reliable
  · simp only [board_frontend, sameEdit]
    cases t.sent.edit sha256 f with
    | none =>
        exact tracked.sameBack
    | some e =>
        exact tracked.sameBack.amend e

/-- An acknowledged change keeps the observer reliable. -/
theorem reliable_confirm
    {s : ConnectionState}
    {tag : BackendTag}
    {mutation : Option Mutation}
    (reliable : s.reliable = true)
    (isAcknowledgement :
      tag = .parseComplete ∨ tag = .bindComplete ∨ tag = .closeComplete)
    (found : acknowledges mutation tag = true) :
    (s.confirm tag mutation).reliable = true := by
  unfold confirm
  rcases isAcknowledgement with rfl | rfl | rfl <;>
    cases mutation with
    | none =>
        cases found
    | some change =>
        cases change <;> simp [acknowledges] at found ⊢
        all_goals first | exact reliable | (split <;> exact reliable)

/-- A server frame that acknowledges what waits keeps the observer reliable. -/
theorem reliable_advance
    {s : ConnectionState}
    {f : Frame}
    (reliable : s.reliable = true)
    (found : acknowledges (pending s) f.backendTag = true) :
    (s.advance f).reliable = true := by
  unfold advance
  cases tag : f.backendTag <;> simp only
  case parseComplete =>
    exact reliable_confirm reliable (Or.inl rfl) (by rw [← tag]; exact found)
  case bindComplete =>
    exact reliable_confirm reliable (Or.inr (Or.inl rfl))
      (by rw [← tag]; exact found)
  case closeComplete =>
    exact reliable_confirm reliable (Or.inr (Or.inr rfl))
      (by rw [← tag]; exact found)
  case parameterStatus =>
    rw [parameterStatus_eq]
    exact reliable
  case readyForQuery =>
    cases statusOf f.body with
    | none =>
        exact reliable
    | some status =>
        simp only [endCycle]
        split <;> split <;> first | rfl | exact reliable
  all_goals exact reliable

theorem Tracked.server
    {t : Timed}
    {f : Frame}
    (tracked : Tracked t)
    (steady : t.Steady (.backend f)) :
    Tracked (t.step sha256 (.backend f)) := by
  simp only [step]
  refine ⟨?_, ?_⟩
  · rw [backend_state, recount_reliable]
    exact reliable_advance tracked.reliable steady.2
  · simp only [board_backend]
    exact tracked.sameBack.serve steady.1

/-! ## Whole interleavings -/

/--
The events of a steady interleaving: those of the client frames alone, and those
of the replies on the board of the whole client side.
-/
theorem steady_run
    {t : Timed}
    {calls : List Call}
    (tracked : Tracked t)
    (steady : Machine.Permitted Steady (step sha256) t calls) :
    clientKeys sha256 t.state calls =
        clientKeys sha256 t.sent ((clientSide calls).map Call.frontend) ∧
      serverKeys sha256 t.state calls =
        replies (t.state.board.feed (edits sha256 t.sent (clientSide calls)))
          (serverSide calls) := by
  induction calls generalizing t with
  | nil =>
      exact ⟨rfl, rfl⟩
  | cons call later inductionHypothesis =>
      cases call with
      | forwarded =>
          exact steady.1.elim
      | frontend f =>
          obtain ⟨client, server⟩ :=
            inductionHypothesis (tracked.client sha256 steady.1) steady.2
          refine ⟨?_, ?_⟩
          · exact congrArg₂ List.cons (tracked.client_keys sha256 steady.1)
              client
          · have fed :
                t.state.board.feed
                    (edits sha256 t.sent (clientSide (.frontend f :: later))) =
                  (t.state.frontend sha256 f).2.board.feed
                    (edits sha256 (t.sent.frontend sha256 f).2
                      (clientSide later)) := by
              have side :
                  clientSide (.frontend f :: later) = f :: clientSide later :=
                rfl
              rw [board_frontend, (client_eq sha256 steady.1).1, side, edits]
              cases t.sent.edit sha256 f <;> rfl
            rw [fed]
            exact server
      | backend f =>
          obtain ⟨client, server⟩ :=
            inductionHypothesis (tracked.server sha256 steady.1) steady.2
          refine ⟨client, ?_⟩
          obtain ⟨served, signed⟩ := Board.feed_serve steady.1.1
            (edits sha256 t.sent (clientSide later))
          have now :
              (t.state.backend f).1.map Event.key =
                (t.state.board.feed (edits sha256 t.sent
                  (clientSide later))).signature f := by
            rw [backend_keys tracked.reliable, signed]
          have rest :
              serverKeys sha256 (t.state.backend f).2 later =
                replies ((t.state.board.feed (edits sha256 t.sent
                  (clientSide later))).serve f) (serverSide later) := by
            rw [served, ← board_backend]
            exact server
          exact congrArg₂ List.cons now rest

end

/-! ## Scenarios -/

/-- Show some events to a matcher; the answer is whether it fires. -/
def look (m : Matcher) : List Event → Bool × Matcher
  | [] => (false, m)
  | e :: later =>
      let seen := m.observe e
      let rest := look seen.2 later
      (seen.1 || rest.1, rest.2)

/-- At which client frames a matcher fires that is shown all events. -/
def clientFirings
    (sha256 : Bytes → String)
    (s : ConnectionState)
    (m : Matcher) : List Call → List Bool
  | [] => []
  | .frontend f :: later =>
      (look m (s.frontend sha256 f).1).1 ::
        clientFirings sha256 (s.frontend sha256 f).2
          (look m (s.frontend sha256 f).1).2 later
  | .forwarded :: later =>
      clientFirings sha256 s.forwarded.2 (look m [s.forwarded.1]).2 later
  | .backend f :: later =>
      clientFirings sha256 (s.backend f).2 (look m (s.backend f).1).2 later

/-- At which server frames a matcher fires that is shown all events. -/
def serverFirings
    (sha256 : Bytes → String)
    (s : ConnectionState)
    (m : Matcher) : List Call → List Bool
  | [] => []
  | .frontend f :: later =>
      serverFirings sha256 (s.frontend sha256 f).2
        (look m (s.frontend sha256 f).1).2 later
  | .forwarded :: later =>
      serverFirings sha256 s.forwarded.2 (look m [s.forwarded.1]).2 later
  | .backend f :: later =>
      (look m (s.backend f).1).1 ::
        serverFirings sha256 (s.backend f).2 (look m (s.backend f).1).2 later

/-- A scenario that selects on names and statement coordinates only. -/
structure Selective (scenario : Scenario) : Prop where
  applicationName : scenario.selector.applicationName = none
  user : scenario.selector.user = none
  database : scenario.selector.database = none
  connectionOrdinal : scenario.selector.connectionOrdinal = none
  transaction : scenario.selector.transaction = none
  row : scenario.when.row = none

/-- A reliable event with a given name and given coordinates. -/
def eventOf (key : String × Coordinates) : Event where
  connectionId := 0
  semanticReliable := true
  startup := default
  transactionEpoch := 0
  queryCycle := key.2.queryCycle
  statementIndex := key.2.statementIndex
  statementClass := key.2.statementClass
  sqlFingerprint := key.2.sqlFingerprint
  event := key.1
  occurrence := 0
  rowIndex := none

/-- The names only client frames raise. -/
def clientNames : List String :=
  ["query.received", "frontend.execute", "statement.execution_started",
    "transaction.begin.requested", "transaction.commit.requested",
    "transaction.rollback.requested", "frontend.sync"]

/-- A selective scenario sees no more of a reliable event than its key. -/
theorem observe_key
    {m : Matcher}
    {e : Event}
    (selective : Selective m.scenario)
    (reliable : e.semanticReliable = true) :
    m.observe e = m.observe (eventOf e.key) := by
  have counts : m.counts e = m.counts (eventOf e.key) := by
    simp [Matcher.counts, Scenario.selects, eventOf, Event.key,
      Event.coordinates, reliable, selective.applicationName, selective.user,
      selective.database, selective.connectionOrdinal, selective.transaction,
      selective.row]
  unfold Matcher.observe
  rw [counts]

theorem look_key
    {m : Matcher}
    {events : List Event}
    (selective : Selective m.scenario)
    (reliable : ∀ e ∈ events, e.semanticReliable = true) :
    look m events = look m ((events.map Event.key).map eventOf) := by
  induction events generalizing m with
  | nil =>
      rfl
  | cons e later inductionHypothesis =>
      have first := observe_key selective (reliable e List.mem_cons_self)
      have next : Selective (m.observe e).2.scenario := by
        rw [Matcher.observe_scenario]
        exact selective
      simp only [look, List.map_cons, ← first]
      rw [inductionHypothesis next fun x member =>
        reliable x (List.mem_cons_of_mem e member)]

/-- Events of other names leave a matcher as it is. -/
theorem look_other
    {m : Matcher}
    {events : List Event}
    (others : ∀ e ∈ events, e.event ≠ m.scenario.when.event) :
    look m events = (false, m) := by
  induction events with
  | nil =>
      rfl
  | cons e later inductionHypothesis =>
      have uncounted : m.counts e = false := by
        simp [Matcher.counts, others e List.mem_cons_self]
      have unseen : m.observe e = (false, m) := by
        simp [Matcher.observe, uncounted]
      simp only [look, unseen]
      rw [inductionHypothesis fun x member =>
        others x (List.mem_cons_of_mem e member)]
      rfl

theorem look_scenario (m : Matcher) (events : List Event) :
    (look m events).2.scenario = m.scenario := by
  induction events generalizing m with
  | nil =>
      rfl
  | cons e later inductionHypothesis =>
      simp only [look]
      rw [inductionHypothesis, Matcher.observe_scenario]

theorem client_name
    {sha256 : Bytes → String}
    {s : ConnectionState}
    {f : Frame}
    {e : Event}
    (member : e ∈ (s.frontend sha256 f).1) :
    e.event ∈ clientNames := by
  have raised := (mem_frontend member).1
  have request (kind : StatementClass) :
      ∀ name ∈ requested kind, name ∈ clientNames := by
    cases kind <;> decide
  generalize e.event = name at raised ⊢
  unfold receive at raised
  cases tag : f.frontendTag <;>
    simp only [tag, List.mem_append, List.not_mem_nil] at raised
  case query =>
    rcases raised with early | asked
    · revert name
      decide
    · exact request _ name asked
  case execute =>
    rcases raised with early | asked
    · revert name
      decide
    · exact request _ name asked
  case sync =>
    revert name
    decide

theorem server_name
    {s : ConnectionState}
    {f : Frame}
    {e : Event}
    (member : e ∈ (s.backend f).1) :
    e.event ∉ clientNames := by
  have raised := (mem_backend member).1
  generalize e.event = name at raised ⊢
  unfold backendNames at raised
  cases tag : f.backendTag <;> simp only [tag, List.not_mem_nil] at raised
  case readyForQuery =>
    cases status : statusOf f.body with
    | none =>
        simp [status] at raised
    | some known =>
        rw [status] at raised
        have apart : ∀ x ∈ readyEvents, x ∉ clientNames := by decide
        exact apart name (mem_readyEvents raised)
  all_goals
    revert name
    decide

/-- At which frames a matcher fires that is shown keys. -/
def flags (m : Matcher) : List (List (String × Coordinates)) → List Bool
  | [] => []
  | keys :: later =>
      (look m (keys.map eventOf)).1 ::
        flags (look m (keys.map eventOf)).2 later

section

variable (sha256 : Bytes → String)

/-- A scenario on a client event fires where the client keys tell it to. -/
theorem clientFirings_run
    {t : Timed}
    {m : Matcher}
    {calls : List Call}
    (tracked : Tracked t)
    (steady : Machine.Permitted Steady (step sha256) t calls)
    (selective : Selective m.scenario)
    (isClient : m.scenario.when.event ∈ clientNames) :
    clientFirings sha256 t.state m calls =
        flags m (clientKeys sha256 t.state calls) ∧
      serverFirings sha256 t.state m calls =
        (serverSide calls).map fun _ => false := by
  induction calls generalizing t m with
  | nil =>
      exact ⟨rfl, rfl⟩
  | cons call later inductionHypothesis =>
      cases call with
      | forwarded =>
          exact steady.1.elim
      | frontend f =>
          have reliable :
              ∀ e ∈ (t.state.frontend sha256 f).1,
                e.semanticReliable = true := by
            intro e member
            rw [(mem_frontend member).2.2.2,
              (accept_grows sha256 t.state f).reliable]
            exact tracked.reliable
          have seen := look_key selective reliable
          have same := look_scenario m (t.state.frontend sha256 f).1
          obtain ⟨client, server⟩ :=
            inductionHypothesis
              (m := (look m (t.state.frontend sha256 f).1).2)
              (tracked.client sha256 steady.1) steady.2
              (by rw [same]; exact selective) (by rw [same]; exact isClient)
          refine ⟨?_, server⟩
          simp only [clientFirings, clientKeys, flags]
          rw [← seen]
          exact congrArg _ client
      | backend f =>
          have unseen : look m (t.state.backend f).1 = (false, m) := by
            refine look_other fun e member named => ?_
            exact server_name member (by rw [named]; exact isClient)
          obtain ⟨client, server⟩ :=
            inductionHypothesis (tracked.server sha256 steady.1) steady.2
              selective isClient
          simp only [clientFirings, serverFirings, clientKeys, unseen]
          exact ⟨client, congrArg _ server⟩

/-- A scenario on a server event fires where the server keys tell it to. -/
theorem serverFirings_run
    {t : Timed}
    {m : Matcher}
    {calls : List Call}
    (tracked : Tracked t)
    (steady : Machine.Permitted Steady (step sha256) t calls)
    (selective : Selective m.scenario)
    (notClient : m.scenario.when.event ∉ clientNames) :
    clientFirings sha256 t.state m calls =
        (clientSide calls).map (fun _ => false) ∧
      serverFirings sha256 t.state m calls =
        flags m (serverKeys sha256 t.state calls) := by
  induction calls generalizing t m with
  | nil =>
      exact ⟨rfl, rfl⟩
  | cons call later inductionHypothesis =>
      cases call with
      | forwarded =>
          exact steady.1.elim
      | frontend f =>
          have unseen :
              look m (t.state.frontend sha256 f).1 = (false, m) := by
            refine look_other fun e member named => ?_
            exact notClient (by rw [← named]; exact client_name member)
          obtain ⟨client, server⟩ :=
            inductionHypothesis (tracked.client sha256 steady.1) steady.2
              selective notClient
          simp only [clientFirings, serverFirings, serverKeys, unseen]
          exact ⟨congrArg _ client, server⟩
      | backend f =>
          have reliable :
              ∀ e ∈ (t.state.backend f).1, e.semanticReliable = true := by
            intro e member
            rw [(mem_backend member).2.2.2]
            exact tracked.reliable
          have seen := look_key selective reliable
          have same := look_scenario m (t.state.backend f).1
          obtain ⟨client, server⟩ :=
            inductionHypothesis (m := (look m (t.state.backend f).1).2)
              (tracked.server sha256 steady.1) steady.2
              (by rw [same]; exact selective) (by rw [same]; exact notClient)
          refine ⟨client, ?_⟩
          simp only [serverFirings, serverKeys, flags]
          rw [← seen]
          exact congrArg _ server

end

/--
Timing independence.  Two steady interleavings of one session, from any reliable
observer, raise the same events at every client frame and at every server frame,
up to occurrences and epochs, and every scenario that selects on names and
statement coordinates fires at the same frame.
-/
theorem timing_independent
    (sha256 : Bytes → String)
    (s : ConnectionState)
    (reliable : s.reliable = true)
    (first second : List Call)
    (sameClient : clientSide first = clientSide second)
    (sameServer : serverSide first = serverSide second)
    (steadyFirst : Machine.Permitted Steady (step sha256) ⟨s, s⟩ first)
    (steadySecond : Machine.Permitted Steady (step sha256) ⟨s, s⟩ second) :
    clientKeys sha256 s first = clientKeys sha256 s second ∧
      serverKeys sha256 s first = serverKeys sha256 s second ∧
      ∀ scenario,
        Selective scenario →
        clientFirings sha256 s (Matcher.new scenario) first =
            clientFirings sha256 s (Matcher.new scenario) second ∧
          serverFirings sha256 s (Matcher.new scenario) first =
            serverFirings sha256 s (Matcher.new scenario) second := by
  have tracked : Tracked ⟨s, s⟩ := ⟨reliable, Board.SameBack.refl s.board⟩
  obtain ⟨clientFirst, serverFirst⟩ := steady_run sha256 tracked steadyFirst
  obtain ⟨clientSecond, serverSecond⟩ :=
    steady_run sha256 tracked steadySecond
  have sameClientKeys :
      clientKeys sha256 s first = clientKeys sha256 s second :=
    clientFirst.trans (by rw [sameClient]; exact clientSecond.symm)
  have sameServerKeys :
      serverKeys sha256 s first = serverKeys sha256 s second :=
    serverFirst.trans
      (by rw [sameClient, sameServer]; exact serverSecond.symm)
  refine ⟨sameClientKeys, sameServerKeys, ?_⟩
  intro scenario selective
  by_cases isClient : scenario.when.event ∈ clientNames
  · obtain ⟨client, server⟩ :=
      clientFirings_run sha256 (m := Matcher.new scenario) tracked steadyFirst
        selective isClient
    obtain ⟨client', server'⟩ :=
      clientFirings_run sha256 (m := Matcher.new scenario) tracked steadySecond
        selective isClient
    refine ⟨?_, ?_⟩
    · exact client.trans (by rw [sameClientKeys]; exact client'.symm)
    · exact server.trans (by rw [sameServer]; exact server'.symm)
  · obtain ⟨client, server⟩ :=
      serverFirings_run sha256 (m := Matcher.new scenario) tracked steadyFirst
        selective isClient
    obtain ⟨client', server'⟩ :=
      serverFirings_run sha256 (m := Matcher.new scenario) tracked steadySecond
        selective isClient
    refine ⟨?_, ?_⟩
    · exact client.trans (by rw [sameClient]; exact client'.symm)
    · exact server.trans (by rw [sameServerKeys]; exact server'.symm)

instance decidableSteady (t : Timed) : (call : Call) → Decidable (t.Steady call)
  | .frontend f =>
      inferInstanceAs (Decidable (f.frontendTag = .execute →
        ∀ named ∈ cstr f.body,
          t.state.portals named.1 = t.sent.portals named.1))
  | .forwarded => inferInstanceAs (Decidable False)
  | .backend f =>
      inferInstanceAs (Decidable (t.state.board.Answerable f ∧
        acknowledges (pending t.state) f.backendTag = true))

/-- The client side of a query and of an extended group behind it. -/
def queryThenGroup : List Call :=
  .frontend (message 'Q' (ascii "SELECT 1" ++ [0])) ::
    (unnamedFrames "SELECT 2" ++ [message 'S' []]).map Call.frontend

/-- The reply to the query. -/
def queryReplies : List Call :=
  [.backend (message 'C' (ascii "SELECT 1" ++ [0])),
    .backend (message 'Z' (ascii "I"))]

/-- The replies to the group. -/
def groupReplies : List Call :=
  [.backend (message '1' []), .backend (message '2' []),
    .backend (message 'C' (ascii "SELECT 1" ++ [0])),
    .backend (message 'Z' (ascii "I"))]

/-- The query is answered before the group is sent. -/
def inTurns : List Call :=
  queryThenGroup.take 1 ++ queryReplies ++ queryThenGroup.drop 1 ++
    groupReplies

/-- Everything is sent at once. -/
def pipelined : List Call :=
  queryThenGroup ++ queryReplies ++ groupReplies

/-- The query is answered between the `Bind` and the `Execute`. -/
def betweenBindAndExecute : List Call :=
  queryThenGroup.take 3 ++ queryReplies ++ queryThenGroup.drop 3 ++
    groupReplies

theorem timing_independent_inTurns :
    let s := greeted sampleSha256 1 default [message 'Z' (ascii "I")]
    clientKeys sampleSha256 s inTurns = clientKeys sampleSha256 s pipelined ∧
      serverKeys sampleSha256 s inTurns =
        serverKeys sampleSha256 s pipelined := by
  intro s
  obtain ⟨client, server, -⟩ :=
    timing_independent sampleSha256 s (by decide +kernel) inTurns pipelined
      (by decide +kernel) (by decide +kernel) (by decide +kernel)
      (by decide +kernel)
  exact ⟨client, server⟩

/-- A `ReadyForQuery` between `Bind` and `Execute` takes the portal away. -/
theorem timing_dependent_betweenBindAndExecute :
    ¬ ∀ (sha256 : Bytes → String) (id : Nat) (startup : StartupMetadata)
        (greeting : List Frame) (first second : List Call),
        Call.forwarded ∉ first →
        Call.forwarded ∉ second →
        Server.Conforming first →
        Server.Conforming second →
        clientSide first = clientSide second →
        serverSide first = serverSide second →
        clientKeys sha256 (greeted sha256 id startup greeting) first =
            clientKeys sha256 (greeted sha256 id startup greeting) second ∧
          serverKeys sha256 (greeted sha256 id startup greeting) first =
            serverKeys sha256 (greeted sha256 id startup greeting) second := by
  intro always
  have same :=
    always sampleSha256 1 default [message 'Z' (ascii "I")]
      betweenBindAndExecute pipelined (by decide +kernel) (by decide +kernel)
      (by decide +kernel) (by decide +kernel) (by decide +kernel)
      (by decide +kernel)
  revert same
  decide +kernel

end Timed

end Pgfault
