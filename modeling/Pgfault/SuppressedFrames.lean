import Pgfault.RelayTurn
import Pgfault.StatementCoordinates

namespace Pgfault

open Queue ConnectionState Session

/-!
# Suppressed client frames

The observer sees a client frame before the scenarios decide whether the server
gets it.  A suppressed `Query` or `Sync` leaves a cycle behind that nobody
answers, and a suppressed `Execute` a statement.  `Proxied` runs the relay loop
beside the session it relays, so that the replies to what was forwarded can be
compared with what was announced.
-/

/-- Two events that name the same cycle and the same statement text. -/
structure SameStatement (e a : Event) : Prop where
  queryCycle : e.queryCycle = a.queryCycle
  sqlFingerprint : e.sqlFingerprint = a.sqlFingerprint
  statementClass : e.statementClass = a.statementClass

instance (e a : Event) : Decidable (SameStatement e a) :=
  decidable_of_iff
    (e.queryCycle = a.queryCycle ∧ e.sqlFingerprint = a.sqlFingerprint ∧
      e.statementClass = a.statementClass)
    ⟨fun ⟨cycle, fingerprint, kind⟩ => ⟨cycle, fingerprint, kind⟩,
      fun same => ⟨same.1, same.2, same.3⟩⟩

theorem sameStatement_of_names
    {number : Nat}
    {statement : Statement}
    {e a : Event}
    (told : Names number statement e)
    (asked : Names number statement a) :
    SameStatement e a where
  queryCycle := told.queryCycle.trans asked.queryCycle.symm
  sqlFingerprint := told.sqlFingerprint.trans asked.sqlFingerprint.symm
  statementClass := told.statementClass.trans asked.statementClass.symm

namespace Session

/-- A cycle with at most one statement left speaks of it at both ends. -/
theorem referencedStatement_back
    {c : Cycle}
    (short : c.statements.length ≤ 1) :
    referencedStatement true c = referencedStatement false c := by
  cases statements : c.statements with
  | nil =>
      simp [referencedStatement, statements]
  | cons first rest =>
      have none : rest = [] := by
        simpa [statements] using short
      simp [referencedStatement, statements, none]

/-- The `Query` a cycle belongs to announced the statement of the cycle. -/
theorem SimplePart.announces
    {c : Cycle}
    {g : Group Announcement}
    {r : Request Announcement}
    (simple : SimplePart c g)
    (member : r ∈ g.waiting) :
    Announces c.id r (referencedStatement false c) := by
  obtain ⟨-, -, x, st, alone, -, announces, statements⟩ := simple
  rw [alone, List.mem_singleton] at member
  rw [member]
  rcases statements with one | ⟨none, last⟩
  · simpa [referencedStatement, one] using announces
  · simpa [referencedStatement, none, last] using announces

/-- What must hold of a reply for its events to name the right statement. -/
structure Attributable
    (s : ConnectionState)
    (f : Frame)
    (g : Group Announcement)
    (r : Request Announcement) : Prop where
  complete :
    f.backendTag = .commandComplete →
    r.frame.frontendTag = .execute →
    r.note.clean = true ∧ .emptyQueryResponse ∉ g.outcomes
  ready :
    f.backendTag = .readyForQuery →
    ∀ c ∈ s.cycles.head?, c.statements.length ≤ 1

instance (s : ConnectionState) (f : Frame) (g : Group Announcement)
    (r : Request Announcement) : Decidable (Attributable s f g r) :=
  decidable_of_iff
    ((f.backendTag = .commandComplete →
        r.frame.frontendTag = .execute →
        r.note.clean = true ∧ .emptyQueryResponse ∉ g.outcomes) ∧
      (f.backendTag = .readyForQuery →
        ∀ c ∈ s.cycles.head?, c.statements.length ≤ 1))
    ⟨fun ⟨complete, ready⟩ => ⟨complete, ready⟩,
      fun attributable => ⟨attributable.1, attributable.2⟩⟩

/-- The requests a `CommandComplete` or a `ReadyForQuery` can answer. -/
theorem request_cases
    {g : Group Announcement}
    {f : Frame}
    {r : Request Announcement}
    (expected : g.expects f = true)
    (due : g.due.head? = some r)
    (answers :
      f.backendTag = .commandComplete ∨ f.backendTag = .readyForQuery) :
    r.frame.frontendTag = .query ∨
      (f.backendTag = .commandComplete ∧ r.frame.frontendTag = .execute) ∨
      (f.backendTag = .readyForQuery ∧ r.frame.frontendTag = .sync) := by
  simp only [Group.expects, due, Option.any_some] at expected
  unfold Group.fits at expected
  rcases answers with complete | ready
  · cases tag : r.frame.frontendTag <;> simp [tag, complete] at expected ⊢
  · cases tag : r.frame.frontendTag <;> simp [tag, ready] at expected ⊢

/-- The events of a reply name the statement of the request it answers. -/
theorem Faithful.attributed
    {σ : Session}
    {f : Frame}
    {g : Group Announcement}
    {r : Request Announcement}
    (faithful : Faithful σ)
    (expected : σ.server.expects f = true)
    (answered : σ.answered = some (g, r))
    (answers :
      f.backendTag = .commandComplete ∨ f.backendTag = .readyForQuery)
    (attributable : Attributable σ.state f g r) :
    ∀ e ∈ (σ.state.backend f).1,
      ∀ a ∈ r.note.raised, SameStatement e a := by
  intro e member a announced
  obtain ⟨front, due⟩ := answered_cases answered
  have notAsync : Server.isAsync f.backendTag = false := by
    rcases answers with tag | tag <;> simp [Server.isAsync, tag]
  have expects := expects_of_front expected notAsync front
  have waits : r ∈ g.waiting :=
    (List.dropWhile_sublist _).subset (List.mem_of_mem_head? due)
  have request := request_cases expects due answers
  rcases faithful.front_cases front with
      ⟨blank, -, -⟩ | ⟨c, cycles, -, -, queue, -, mirrors, -, -⟩
  · have tags := tag_of_untouched (blank.untouched r waits)
    rcases request with query | ⟨-, execute⟩ | ⟨-, isSync⟩
    · exact absurd query tags.2.1
    · exact absurd execute tags.1
    · exact absurd isSync tags.2.2
  · have isFront : σ.state.cycles.head? = some c := by rw [queue]; rfl
    refine sameStatement_of_names (names_of_backend member isFront).1 ?_
    rcases mirrors.part with simple | part
    · exact simple.announces waits a announced
    · rcases request with query | ⟨complete, execute⟩ | ⟨ready, isSync⟩
      · exact absurd query (part.noQuery r waits)
      · obtain ⟨d, answersExecute⟩ := faithful.answersExecute expected
          notAsync (by simp [complete]) answered execute
        have same : d = c := by
          rw [answersExecute.front] at isFront
          exact Option.some.inj isFront
        subst same
        obtain ⟨clean, noEmpty⟩ := attributable.complete complete execute
        exact answersExecute.announces clean noEmpty a announced
      · have short := attributable.ready ready c isFront
        rw [← referencedStatement_back short]
        exact (part.sync r waits isSync).2 a announced

end Session

/-- The relay loop beside the session it relays. -/
structure Proxied where
  relay : Relay
  session : Session

namespace Proxied

section

variable (sha256 : Bytes → String) (parseDuration : String → Except String Nat)

/-- What the session sees of one turn of the loop from `r` to `t`. -/
def turns (r t : Relay) : Input → List Turn
  | .client (.frame f) =>
      if t.toServer = r.toServer then [.dropped f]
      else if f.frontendTag = .query ∨ f.frontendTag = .execute then
        [.client f, .forwarded]
      else [.client f]
  | .server (.frame f) => [.server f]
  | _ => []

/-- One turn of the loop; the session stops with it. -/
def step (p : Proxied) (input : Input) : Proxied :=
  let t := p.relay.step sha256 parseDuration input
  { relay := t
    session :=
      if t.exit.isSome then p.session
      else p.session.run sha256 (turns p.relay t input) }

/-- The loop once the server has greeted the client. -/
def start
    (id : Nat)
    (startup : StartupMetadata)
    (scenarios : List Scenario)
    (greeting : List Frame) : Proxied where
  relay :=
    (Relay.start id startup scenarios).run sha256 parseDuration
      (greeting.map fun f => .server (.frame f))
  session := Session.start sha256 id startup greeting

/--
What the loop may read while it runs: what the client sends, and what the server
answers to the frames it got.
-/
def permits (p : Proxied) : Input → Prop
  | .client (.frame f) => p.relay.exit = none ∧ p.session.sends f = true
  | .server (.frame f) =>
      p.relay.exit = none ∧ p.session.server.expects f = true
  | _ => p.relay.exit = none

/--
The reliable events of a `CommandComplete` or a `ReadyForQuery` name the cycle
and the statement that the forwarded frame it answers has announced.
-/
def Attributed (p : Proxied) : Input → Prop
  | .server (.frame f) =>
      f.backendTag = .commandComplete ∨ f.backendTag = .readyForQuery →
      ∀ answered ∈ p.session.answered,
        ∀ e ∈ (p.relay.state.backend f).1,
          e.semanticReliable = true →
          ∀ a ∈ answered.2.note.raised, SameStatement e a
  | _ => True

/--
Of client frames, only `Execute` is suppressed.  A `CommandComplete` answers no
`Execute` with a suppressed one or an empty one in front of it in its group, and
a `ReadyForQuery` finds at most one statement of its cycle unanswered.
-/
def Unspoiled (p : Proxied) : Input → Prop
  | .client (.frame f) =>
      let t := p.relay.step sha256 parseDuration (.client (.frame f))
      t.exit = none → t.toServer = p.relay.toServer → f.frontendTag = .execute
  | .server (.frame f) =>
      ∀ answered ∈ p.session.answered,
        Attributable p.relay.state f answered.1 answered.2
  | _ => True

instance decidablePermits (p : Proxied) :
    (input : Input) → Decidable (p.permits input)
  | .client (.frame f) =>
      inferInstanceAs (Decidable
        (p.relay.exit = none ∧ p.session.sends f = true))
  | .server (.frame f) =>
      inferInstanceAs (Decidable
        (p.relay.exit = none ∧ p.session.server.expects f = true))
  | .client .eof => inferInstanceAs (Decidable (p.relay.exit = none))
  | .client (.error _) => inferInstanceAs (Decidable (p.relay.exit = none))
  | .server .eof => inferInstanceAs (Decidable (p.relay.exit = none))
  | .server (.error _) => inferInstanceAs (Decidable (p.relay.exit = none))

instance decidableAttributed (p : Proxied) :
    (input : Input) → Decidable (p.Attributed input)
  | .client _ => inferInstanceAs (Decidable True)
  | .server .eof => inferInstanceAs (Decidable True)
  | .server (.error _) => inferInstanceAs (Decidable True)
  | .server (.frame f) =>
      inferInstanceAs (Decidable
        (f.backendTag = .commandComplete ∨ f.backendTag = .readyForQuery →
          ∀ answered ∈ p.session.answered,
            ∀ e ∈ (p.relay.state.backend f).1,
              e.semanticReliable = true →
              ∀ a ∈ answered.2.note.raised, SameStatement e a))

instance decidableUnspoiled (p : Proxied) :
    (input : Input) → Decidable (p.Unspoiled sha256 parseDuration input)
  | .client (.frame f) =>
      inferInstanceAs (Decidable
        ((p.relay.step sha256 parseDuration (.client (.frame f))).exit =
            none →
          (p.relay.step sha256 parseDuration (.client (.frame f))).toServer =
            p.relay.toServer →
          f.frontendTag = .execute))
  | .server (.frame f) =>
      inferInstanceAs (Decidable (∀ answered ∈ p.session.answered,
        Attributable p.relay.state f answered.1 answered.2))
  | .client .eof => inferInstanceAs (Decidable True)
  | .client (.error _) => inferInstanceAs (Decidable True)
  | .server .eof => inferInstanceAs (Decidable True)
  | .server (.error _) => inferInstanceAs (Decidable True)

/-- While the loop runs, the session knows the state of its observer. -/
def Tracks (p : Proxied) : Prop :=
  p.relay.exit = none →
  p.relay.state = p.session.state ∧ Faithful p.session

/-- A greeting leaves the observer greeted. -/
theorem state_of_greeting
    (frames : List Frame)
    {r : Relay}
    (running :
      (r.run sha256 parseDuration
        (frames.map fun f => .server (.frame f))).exit = none) :
    (r.run sha256 parseDuration
        (frames.map fun f => .server (.frame f))).state =
      r.state.observe sha256 (frames.map Call.backend) := by
  induction frames generalizing r with
  | nil =>
      rfl
  | cons f rest inductionHypothesis =>
      have stepRunning :
          (r.step sha256 parseDuration (.server (.frame f))).exit = none :=
        Relay.running_of_run sha256 parseDuration
          (rest.map fun f => .server (.frame f)) running
      have later := inductionHypothesis running
      rcases Relay.step_running sha256 parseDuration stepRunning with
          ⟨g, isClient, -⟩ | ⟨g, isServer, turn⟩
      · cases isClient
      · cases isServer
        rw [turn.observed] at later
        exact later

theorem tracks_start
    (id : Nat)
    (startup : StartupMetadata)
    (scenarios : List Scenario)
    (greeting : List Frame) :
    Tracks (start sha256 parseDuration id startup scenarios greeting) := by
  intro running
  exact ⟨state_of_greeting sha256 parseDuration greeting running,
    faithful_start sha256 id startup greeting⟩

/-- What the session makes of a client frame the loop has read. -/
theorem client_tracks
    {p : Proxied}
    {f : Frame}
    {t : Relay}
    (state : p.relay.state = p.session.state)
    (faithful : Faithful p.session)
    (sends : p.session.sends f = true)
    (spares :
      t.toServer = p.relay.toServer → f.frontendTag = .execute)
    (turn : Relay.ClientTurn sha256 p.relay f t) :
    t.state =
        (p.session.run sha256
          (turns p.relay t (.client (.frame f)))).state ∧
      Faithful
        (p.session.run sha256 (turns p.relay t (.client (.frame f)))) := by
  rcases turn.moves with ⟨stopped, observed⟩ | ⟨sent, observed⟩
  · have execute := spares stopped
    have shape : turns p.relay t (.client (.frame f)) = [.dropped f] := by
      simp [turns, stopped]
    have allowed : p.session.permits (.dropped f) :=
      ⟨sends, by simp [isSuppressible, execute]⟩
    rw [shape, observed, state]
    exact ⟨rfl, faithful.step allowed execute⟩
  · have more : t.toServer ≠ p.relay.toServer := by simp [sent]
    have received : Faithful (p.session.step sha256 (.client f)) :=
      faithful.client sends
    rw [observed, state, Relay.sentState]
    by_cases statement : f.frontendTag = .query ∨ f.frontendTag = .execute
    · have shape :
          turns p.relay t (.client (.frame f)) = [.client f, .forwarded] := by
        simp only [turns, if_neg more, if_pos statement]
      have noted :
          Faithful
            ((p.session.step sha256 (.client f)).step sha256 .forwarded) :=
        received.step trivial trivial
      rw [shape, if_pos statement]
      exact ⟨rfl, noted⟩
    · have shape : turns p.relay t (.client (.frame f)) = [.client f] := by
        simp only [turns, if_neg more, if_neg statement]
      rw [shape, if_neg statement]
      exact ⟨rfl, received⟩

/-- Every turn of the loop that spoils nothing. -/
theorem Tracks.step
    {p : Proxied}
    {input : Input}
    (tracks : Tracks p)
    (permitted : p.permits input)
    (unspoiled : p.Unspoiled sha256 parseDuration input) :
    Tracks (p.step sha256 parseDuration input) := by
  intro running
  have stays :
      (p.relay.step sha256 parseDuration input).exit = none := running
  obtain ⟨state, faithful⟩ :=
    tracks (Relay.running_of_run sha256 parseDuration [input] stays)
  have session :
      (p.step sha256 parseDuration input).session =
        p.session.run sha256
          (turns p.relay (p.relay.step sha256 parseDuration input) input) := by
    simp [Proxied.step, stays]
  rw [session]
  rcases Relay.step_running sha256 parseDuration stays with
      ⟨f, rfl, turn⟩ | ⟨f, rfl, turn⟩
  · exact client_tracks sha256 state faithful permitted.2 (unspoiled stays)
      turn
  · have replied : Faithful (p.session.step sha256 (.server f)) := by
      have allowed : p.session.permits (.server f) := permitted.2
      exact faithful.step allowed trivial
    refine ⟨turn.observed.trans ?_, replied⟩
    rw [state]
    rfl

/--
Suppressed client frames and the observer.  In every run of the relay loop, for
every scenario list, whose turns are all unspoiled, every `CommandComplete` and
every `ReadyForQuery` is attributed to the forwarded frame it answers.
-/
theorem suppression_keeps_attribution
    (id : Nat)
    (startup : StartupMetadata)
    (scenarios : List Scenario)
    (greeting : List Frame)
    (inputs : List Input)
    (permitted :
      Machine.Permitted
        (fun p input =>
          p.permits input ∧ p.Unspoiled sha256 parseDuration input)
        (Proxied.step sha256 parseDuration)
        (start sha256 parseDuration id startup scenarios greeting) inputs) :
    Machine.Permitted Attributed (Proxied.step sha256 parseDuration)
      (start sha256 parseDuration id startup scenarios greeting) inputs := by
  refine Machine.permitted_imp
    (fun p input tracks allowed =>
      Tracks.step sha256 parseDuration tracks allowed.1 allowed.2)
    ?_ (tracks_start sha256 parseDuration id startup scenarios greeting)
    permitted permitted
  rintro p input tracks ⟨allowed, unspoiled⟩ -
  match input with
  | .client _ =>
      trivial
  | .server .eof =>
      trivial
  | .server (.error _) =>
      trivial
  | .server (.frame f) =>
      rintro answers ⟨g, r⟩ answered e member - a announced
      obtain ⟨state, faithful⟩ := tracks allowed.1
      have attributable := unspoiled (g, r) answered
      rw [state] at member attributable
      exact faithful.attributed allowed.2 answered answers attributable e
        member a announced

end

/-- Suppress the second `Execute` of a connection. -/
def dropSecondExecute : Scenario where
  version := 1
  name := "drop-second-execute"
  when := { event := "frontend.execute", occurrence := some 2 }
  action := { suppress := some ⟨true⟩ }

/-- Two statements in one group. -/
def twoExecutes : List Input :=
  ((unnamedFrames "SELECT 1" ++ unnamedFrames "SELECT 2" ++
      [message 'S' []]).map fun f => .client (.frame f)) ++
    ([message '1' [], message '2' [], rowOfOne,
      message 'C' (ascii "SELECT 1" ++ [0]), message '1' [], message '2' [],
      message 'Z' (ascii "I")].map fun f => .server (.frame f))

theorem suppression_keeps_attribution_twoExecutes :
    Machine.Permitted Attributed (step sampleSha256 fun _ => .ok 0)
      (start sampleSha256 (fun _ => .ok 0) 1 default [dropSecondExecute]
        [message 'Z' (ascii "I")]) twoExecutes := by
  refine suppression_keeps_attribution sampleSha256 (fun _ => .ok 0) 1 default
    [dropSecondExecute] [message 'Z' (ascii "I")] twoExecutes ?_
  decide +kernel

/-- Suppress the first `Query` of a connection. -/
def dropFirstQuery : Scenario where
  version := 1
  name := "drop-first-query"
  when := { event := "query.received" }
  action := { suppress := some ⟨true⟩ }

/-- Two queries, of which the server answers one. -/
def twoQueries : List Input :=
  [.client (.frame (message 'Q' (ascii "SELECT 1" ++ [0]))),
    .client (.frame (message 'Q' (ascii "SELECT 2" ++ [0]))),
    .server (.frame (message 'C' (ascii "SELECT 1" ++ [0]))),
    .server (.frame (message 'Z' (ascii "I")))]

/-- The answer to the second query is taken for one to the suppressed query. -/
theorem suppression_misattributes_twoQueries :
    ¬ ∀ (sha256 : Bytes → String)
        (parseDuration : String → Except String Nat) (id : Nat)
        (startup : StartupMetadata) (scenarios : List Scenario)
        (greeting : List Frame) (inputs : List Input),
        (∀ s ∈ scenarios, s.validate parseDuration = .ok ()) →
        (∀ s ∈ scenarios, s.action.disconnect = none) →
        Machine.Permitted permits (step sha256 parseDuration)
          (start sha256 parseDuration id startup scenarios greeting) inputs →
        Machine.Permitted Attributed (step sha256 parseDuration)
          (start sha256 parseDuration id startup scenarios greeting)
          inputs := by
  intro always
  have attributed :=
    always sampleSha256 (fun _ => .ok 0) 1 default [dropFirstQuery]
      [message 'Z' (ascii "I")] twoQueries
      (by simp only [List.mem_singleton, forall_eq]; rfl) (by decide)
      (by decide +kernel)
  revert attributed
  decide +kernel

end Proxied

end Pgfault
