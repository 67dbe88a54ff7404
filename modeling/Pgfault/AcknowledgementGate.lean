import Pgfault.CommitSoundness
import Pgfault.Transparency

namespace Pgfault

open Queue ConnectionState

/-!
# No acknowledgement leaks

A fault at a completion event is decided at `ReadyForQuery`, but the client
takes the `CommandComplete` in front of it for the acknowledgement.  The gate
has to close when that frame arrives and to stay closed until the decision.

The proof goes back from the decision to the frame the command tag came from
(`CommandOrigin`), shows that the gate closed there, and follows the held
frames through the turns in between.
-/

namespace Relay

section

variable (sha256 : Bytes → String) (parseDuration : String → Except String Nat)

/-- Matchers along a run inside the loop. -/
theorem follows_run
    {r : Relay}
    (inputs : List Input)
    (running : (r.run sha256 parseDuration inputs).exit = none) :
    List.Forall₂ Follows r.matchers
      (r.run sha256 parseDuration inputs).matchers := by
  induction inputs generalizing r with
  | nil =>
      exact List.forall₂_same.mpr fun m _ => Follows.refl m
  | cons input later inductionHypothesis =>
      have stepRunning :
          (r.step sha256 parseDuration input).exit = none :=
        running_of_run sha256 parseDuration later running
      have rest := inductionHypothesis running
      rcases step_running sha256 parseDuration stepRunning with
          ⟨f, -, turn⟩ | ⟨f, -, turn⟩
      · exact forall₂_trans Follows (fun _ _ _ => Follows.trans)
          turn.follows rest
      · exact forall₂_trans Follows (fun _ _ _ => Follows.trans)
          turn.follows rest

/-! ## Held and written frames -/

/-- A closed gate stays closed until a `ReadyForQuery` arrives. -/
theorem gate_stays_closed
    {r : Relay}
    {inputs : List Input}
    (closed : r.held ≠ [])
    (noReady : ∀ f ∈ serverFrames inputs, f.backendTag ≠ .readyForQuery)
    (running : (r.run sha256 parseDuration inputs).exit = none) :
    (r.run sha256 parseDuration inputs).toClient = r.toClient := by
  induction inputs generalizing r with
  | nil =>
      rfl
  | cons input later inductionHypothesis =>
      have stepRunning :
          (r.step sha256 parseDuration input).exit = none :=
        running_of_run sha256 parseDuration later running
      have laterNoReady :
          ∀ f ∈ serverFrames later, f.backendTag ≠ .readyForQuery := by
        intro f member
        have split : serverFrames (input :: later) =
            serverFrames [input] ++ serverFrames later :=
          serverFrames_append [input] later
        exact noReady f (by rw [split]; exact List.mem_append_right _ member)
      have goesOn
          (held : (r.step sha256 parseDuration input).held ≠ [])
          (toClient :
            (r.step sha256 parseDuration input).toClient = r.toClient) :
          (r.run sha256 parseDuration (input :: later)).toClient =
            r.toClient :=
        (inductionHypothesis held laterNoReady running).trans toClient
      rcases step_running sha256 parseDuration stepRunning with
          ⟨f, -, turn⟩ | ⟨f, rfl, turn⟩
      · exact goesOn (by rw [turn.held]; exact closed) turn.toClient
      · cases turn.delivers with
        | left exited _ _ =>
            rw [stepRunning] at exited
            cases exited
        | settled ready _ _ _ =>
            exact absurd ready (noReady f (by simp [serverFrames]))
        | dropped _ _ held _ toClient =>
            exact goesOn (by rw [held]; exact closed) toClient
        | held _ _ held _ _ toClient =>
            exact goesOn (by simp [held]) toClient
        | written _ _ _ wasEmpty _ _ _ =>
            exact absurd wasEmpty closed

/-- What the relay keeps or has written is old or arrived since. -/
structure Since (old : List Delivery) (number : Nat) (r : Relay) : Prop where
  received : number ≤ r.received
  origin : ∀ d ∈ r.toClient ++ r.held, d ∈ old ∨ number ≤ d.index

/-- One turn writes or holds nothing but what was there and what arrives. -/
theorem Since.step
    {old : List Delivery}
    {number : Nat}
    {r : Relay}
    (since : Since old number r)
    (input : Input) :
    Since old number (r.step sha256 parseDuration input) := by
  have keeps
      {t : Relay}
      (received : t.received = r.received)
      (toClient : t.toClient = r.toClient)
      (held : t.held = r.held) :
      Since old number t := by
    refine ⟨by rw [received]; exact since.received, ?_⟩
    rw [toClient, held]
    exact since.origin
  by_cases exited : r.exit.isSome = true
  · rw [step_of_exit sha256 parseDuration exited]
    exact since
  · unfold Relay.step
    rw [if_neg exited]
    match input with
    | .client (.frame f) =>
        have turn := clientFrame_turn sha256 parseDuration r f
        exact keeps turn.received turn.toClient turn.held
    | .client .eof =>
        exact keeps rfl rfl rfl
    | .client (.error _) =>
        exact keeps rfl rfl rfl
    | .server .eof =>
        exact keeps rfl rfl rfl
    | .server (.error _) =>
        exact keeps rfl rfl rfl
    | .server (.frame f) =>
        have turn := serverFrame_turn parseDuration r f
        have received := since.received
        refine ⟨by rw [turn.received]; omega, ?_⟩
        intro d member
        have sources :
            d ∈ r.toClient ++ r.held ∨ d = ⟨r.received, f⟩ := by
          cases turn.delivers with
          | left _ held toClient =>
              rw [held, toClient] at member
              exact Or.inl member
          | settled _ held _ toClient =>
              rw [held, toClient] at member
              split at member
              · exact Or.inl (by simpa using Or.inl member)
              · simpa [or_assoc] using member
          | dropped _ _ held _ toClient =>
              rw [held, toClient] at member
              exact Or.inl member
          | held _ _ held _ _ toClient =>
              rw [held, toClient] at member
              simpa [or_assoc] using member
          | written _ _ _ _ held _ toClient =>
              rw [held, toClient] at member
              simp only [List.append_nil, List.mem_append,
                List.mem_singleton] at member
              rcases member with earlier | now
              · exact Or.inl (List.mem_append_left _ earlier)
              · exact Or.inr now
        rcases sources with earlier | rfl
        · exact since.origin d earlier
        · exact Or.inr received

/-- Whole runs write nothing but what was there and what arrives. -/
theorem since_run
    (r : Relay)
    (inputs : List Input) :
    Since (r.toClient ++ r.held) r.received
      (r.run sha256 parseDuration inputs) :=
  Machine.run_invariant
    (fun _ input since => since.step sha256 parseDuration input)
    ⟨Nat.le_refl _, fun _ member => Or.inl member⟩ inputs

/-! ## The frame behind a command tag -/

/-- Every `ReadyForQuery` among the inputs reports a known status. -/
def ValidStatus (inputs : List Input) : Prop :=
  ∀ f ∈ serverFrames inputs,
    f.backendTag = .readyForQuery → (statusOf f.body).isSome = true

/--
The last `CommandComplete` of the front cycle `c`, among the inputs of a run
from `r₀`.
-/
structure CommandOrigin
    (r₀ : Relay)
    (inputs : List Input)
    (c : Cycle)
    (before : List Input)
    (complete : Frame)
    (between : List Input) : Prop where
  shape : inputs = before ++ .server (.frame complete) :: between
  tag : complete.backendTag = .commandComplete
  latest :
    ∀ f ∈ serverFrames between,
      f.backendTag ≠ .commandComplete ∧ f.backendTag ≠ .readyForQuery
  command : c.command = (text complete.body).getD ""
  front :
    ∃ c₀,
      (r₀.run sha256 parseDuration before).state.cycles.head? = some c₀ ∧
        c₀.id = c.id ∧
        ((∀ f ∈ serverFrames between, f.backendTag ≠ .portalSuspended) →
          c.last = referencedStatement false c₀)
  reliable :
    (r₀.run sha256 parseDuration inputs).state.reliable = true →
    (r₀.run sha256 parseDuration before).state.reliable = true

/-- Every command tag in the queue stands in front and has its frame. -/
structure Origins (r₀ : Relay) (inputs : List Input) : Prop where
  untouched :
    ∀ c ∈ (r₀.run sha256 parseDuration inputs).state.cycles.tail,
      c.command = ""
  front :
    ∀ c,
      (r₀.run sha256 parseDuration inputs).state.cycles.head? = some c →
      c.command ≠ "" →
      ∃ before complete between,
        CommandOrigin sha256 parseDuration r₀ inputs c before complete between

/-- The origin of a command tag when one more frame has been read. -/
theorem CommandOrigin.extend
    {r₀ : Relay}
    {inputs before between : List Input}
    {c d : Cycle}
    {complete : Frame}
    (origin :
      CommandOrigin sha256 parseDuration r₀ inputs c before complete between)
    (input : Input)
    (sameId : d.id = c.id)
    (sameCommand : d.command = c.command)
    (latest :
      ∀ f ∈ serverFrames [input],
        f.backendTag ≠ .commandComplete ∧ f.backendTag ≠ .readyForQuery)
    (last :
      (∀ f ∈ serverFrames [input], f.backendTag ≠ .portalSuspended) →
      d.last = c.last)
    (reliable :
      (r₀.run sha256 parseDuration (inputs ++ [input])).state.reliable =
          true →
        (r₀.run sha256 parseDuration inputs).state.reliable = true) :
    CommandOrigin sha256 parseDuration r₀ (inputs ++ [input]) d before complete
      (between ++ [input]) where
  shape := by rw [origin.shape, List.append_assoc, List.cons_append]
  tag := origin.tag
  latest := by
    intro f member
    rw [serverFrames_append] at member
    rcases List.mem_append.mp member with earlier | now
    · exact origin.latest f earlier
    · exact latest f now
  command := sameCommand.trans origin.command
  front := by
    obtain ⟨c₀, wasFront, id, sameLast⟩ := origin.front
    refine ⟨c₀, wasFront, id.trans sameId.symm, ?_⟩
    intro unsuspended
    rw [serverFrames_append] at unsuspended
    rw [last fun f member =>
      unsuspended f (List.mem_append_right _ member)]
    exact sameLast fun f member =>
      unsuspended f (List.mem_append_left _ member)
  reliable := fun after => origin.reliable (reliable after)

/-- A client turn keeps the origins. -/
theorem Origins.client
    {r₀ : Relay}
    {inputs : List Input}
    (origins : Origins sha256 parseDuration r₀ inputs)
    {f : Frame}
    (turn :
      ClientTurn sha256 (r₀.run sha256 parseDuration inputs) f
        (r₀.run sha256 parseDuration (inputs ++ [.client (.frame f)]))) :
    Origins sha256 parseDuration r₀ (inputs ++ [.client (.frame f)]) := by
  obtain ⟨counters, state⟩ := turn.state
  have grown :=
    accept_grows sha256 (r₀.run sha256 parseDuration inputs).state f
  refine ⟨?_, ?_⟩
  · intro d member
    rw [state, recount_cycles] at member
    rcases grown.behind member with ⟨c, source, grows⟩ | ⟨extended, grows⟩
    · rw [grows.command]
      exact origins.untouched c source
    · rw [grows.command]
      rfl
  · intro d isFront tagged
    rw [state, recount_cycles] at isFront
    rcases grown.front isFront with
        ⟨c, wasFront, grows⟩ | ⟨-, extended, grows⟩
    · rw [grows.command] at tagged
      obtain ⟨before, complete, between, origin⟩ :=
        origins.front c wasFront tagged
      refine ⟨before, complete, _, origin.extend sha256 parseDuration _
        grows.id grows.command (by simp [serverFrames])
        (fun _ => grows.last) ?_⟩
      rw [state, recount_reliable]
      intro reliable
      rw [← grown.reliable]
      exact reliable
    · exact absurd grows.command tagged

/-- A server turn keeps the origins. -/
theorem Origins.server
    {r₀ : Relay}
    {inputs : List Input}
    (origins : Origins sha256 parseDuration r₀ inputs)
    {f : Frame}
    (valid : ValidStatus [.server (.frame f)])
    (turn :
      ServerTurn parseDuration (r₀.run sha256 parseDuration inputs) f
        (r₀.run sha256 parseDuration (inputs ++ [.server (.frame f)]))) :
    Origins sha256 parseDuration r₀ (inputs ++ [.server (.frame f)]) := by
  obtain ⟨counters, state⟩ := turn.state
  cases status : readyStatus f with
  | some _ =>
      have cycles :=
        advance_cycles_of_ready (r₀.run sha256 parseDuration inputs).state
          status
      refine ⟨?_, ?_⟩
      · intro c member
        rw [state, recount_cycles, cycles] at member
        exact origins.untouched c (List.mem_of_mem_tail member)
      · intro c isFront tagged
        rw [state, recount_cycles, cycles] at isFront
        exact absurd
          (origins.untouched c (List.mem_of_mem_head? isFront)) tagged
  | none =>
      have cycles :=
        advance_cycles_of_open (r₀.run sha256 parseDuration inputs).state
          status
      have notReady : f.backendTag ≠ .readyForQuery := by
        intro ready
        have known := valid f (by simp [serverFrames]) ready
        simp only [readyStatus, ready, if_true] at status
        rw [status] at known
        cases known
      have reliable :
          (r₀.run sha256 parseDuration
              (inputs ++ [.server (.frame f)])).state.reliable = true →
            (r₀.run sha256 parseDuration inputs).state.reliable = true := by
        rw [state]
        exact reliable_of_advance status
      refine ⟨?_, ?_⟩
      · intro c member
        rw [state, recount_cycles, cycles, tail_modifyFront] at member
        exact origins.untouched c member
      · intro d isFront tagged
        rw [state, recount_cycles, cycles, head?_modifyFront] at isFront
        obtain ⟨c, wasFront, rfl⟩ := Option.map_eq_some_iff.mp isFront
        have sameId := (answer_clientPart f c).id
        by_cases complete : f.backendTag = .commandComplete
        · -- This frame is the origin of its own tag.
          refine ⟨inputs, f, [], rfl, complete, by simp [serverFrames], ?_,
            ⟨c, wasFront, sameId.symm, ?_⟩, reliable⟩
          · rw [answer_command, if_pos complete]
          · intro _
            rw [answer_last, if_pos (Or.inl complete)]
        · have sameCommand : (answer f c).command = c.command := by
            rw [answer_command, if_neg complete]
          rw [sameCommand] at tagged
          obtain ⟨before, origin, between, found⟩ :=
            origins.front c wasFront tagged
          refine ⟨before, origin, _, found.extend sha256 parseDuration _
            sameId sameCommand ?_ ?_ reliable⟩
          · intro g member
            have isThis : g = f := by simpa [serverFrames] using member
            subst isThis
            exact ⟨complete, notReady⟩
          · intro unsuspended
            have notSuspended := unsuspended f (by simp [serverFrames])
            rw [answer_last, if_neg]
            simp [complete, notSuspended]

/-- The origins after every run that is still in the loop. -/
theorem origins_run
    (id : Nat)
    (startup : StartupMetadata)
    (scenarios : List Scenario)
    (inputs : List Input)
    (valid : ValidStatus inputs)
    (running :
      ((start id startup scenarios).run sha256 parseDuration inputs).exit =
        none) :
    Origins sha256 parseDuration (start id startup scenarios) inputs := by
  induction inputs using List.reverseRecOn with
  | nil =>
      exact ⟨by simp [start, run, ConnectionState.new],
        by simp [start, run, ConnectionState.new]⟩
  | append_singleton inputs input inductionHypothesis =>
      have validBefore : ValidStatus inputs := fun f member =>
        valid f (by rw [serverFrames_append]
                    exact List.mem_append_left _ member)
      have validNow : ValidStatus [input] := fun f member =>
        valid f (by rw [serverFrames_append]
                    exact List.mem_append_right _ member)
      have runningStep := running
      rw [run_concat] at runningStep
      have runningBefore :=
        running_of_run sha256 parseDuration [input] runningStep
      have origins := inductionHypothesis validBefore runningBefore
      rcases step_running sha256 parseDuration runningStep with
          ⟨f, rfl, turn⟩ | ⟨f, rfl, turn⟩
      · rw [← run_concat] at turn
        exact origins.client sha256 parseDuration turn
      · rw [← run_concat] at turn
        exact origins.server sha256 parseDuration validNow turn

/-! ## From the decision back to the gate -/

/-- The prediction at a `CommandComplete` that a later decision bears out. -/
theorem boundary_of_decision
    {s : ConnectionState}
    {f : Frame}
    {c : Cycle}
    {name : String}
    (tag : f.backendTag = .commandComplete)
    (front : s.cycles.head? = some c)
    (reliable : s.reliable = true)
    (decided :
      (name = "transaction.commit.completed" ∧
          (referencedStatement false c).statementClass = .commit ∧
          (text f.body).getD "" = "COMMIT") ∨
        (name = "transaction.rollback.completed" ∧
          (referencedStatement false c).statementClass = .rollback ∧
          (text f.body).getD "" = "ROLLBACK")) :
    s.completionBoundary f = some name := by
  have statement :
      c.statements.head?.getD c.last = referencedStatement false c := rfl
  have readable {read : String} (isTag : (text f.body).getD "" = read)
      (nonempty : read ≠ "") : text f.body = some read := by
    cases found : text f.body with
    | none =>
        rw [found] at isTag
        exact absurd isTag.symm nonempty
    | some value =>
        rw [found] at isTag
        exact congrArg some isTag
  unfold completionBoundary
  rw [if_pos ⟨tag, reliable⟩]
  rcases decided with ⟨rfl, kind, isTag⟩ | ⟨rfl, kind, isTag⟩
  · simp only [front, readable isTag (by decide), statement, kind, if_true]
  · simp only [front, readable isTag (by decide), statement, kind, if_true]

/-- Every matcher after a run stood at the same position before it. -/
theorem exists_source_of_follows
    {before after : List Matcher}
    (follows : List.Forall₂ Follows before after)
    {i : Nat}
    {n : Matcher}
    (target : after[i]? = some n) :
    ∃ m, before[i]? = some m ∧ Follows m n := by
  have inRange : i < before.length := by
    rw [follows.length_eq]
    exact (List.getElem?_eq_some_iff.mp target).1
  have source : before[i]? = some before[i] :=
    List.getElem?_eq_getElem inRange
  exact ⟨before[i], source, related_of_forall₂ follows source target⟩

/-- What is written or held arrived before now. -/
theorem index_lt_received
    {id : Nat}
    {startup : StartupMetadata}
    {scenarios : List Scenario}
    {inputs : List Input}
    {d : Delivery}
    (member :
      d ∈ ((start id startup scenarios).run sha256 parseDuration
            inputs).toClient ++
          ((start id startup scenarios).run sha256 parseDuration
            inputs).held) :
    d.index < (serverFrames inputs).length := by
  have transparent :=
    transparent_run sha256 parseDuration id startup scenarios inputs
  have arrived := transparent.downstream.subset member
  unfold arrivals at arrived
  obtain ⟨i, bound, rfl⟩ := List.mem_mapIdx.mp arrived
  exact bound

/-- A fault that withholds the `ReadyForQuery` writes nothing any more. -/
theorem written_after_fault
    {r : Relay}
    {ready : Frame}
    {action : Action}
    (running : r.exit = none)
    (isReady : ready.backendTag = .readyForQuery)
    (outcome :
      (r.serverFrame parseDuration ready).toClient = r.toClient ∧
          (r.serverFrame parseDuration ready).exit.isSome = true ∨
        Granted action (r.observeServer parseDuration ready).2)
    (withholds :
      action.suppress.any Suppress.current = true ∨
        action.disconnect.isSome = true)
    (later : List Input) :
    ∀ d ∈ (r.run sha256 parseDuration
        (.server (.frame ready) :: later)).toClient,
      d ∈ r.toClient ∨ r.received < d.index := by
  have turn := serverFrame_turn parseDuration r ready
  have isStep :
      r.step sha256 parseDuration (.server (.frame ready)) =
        r.serverFrame parseDuration ready :=
    if_neg (by simp [running])
  have isRun :
      r.run sha256 parseDuration (.server (.frame ready) :: later) =
        (r.serverFrame parseDuration ready).run sha256 parseDuration
          later := by
    unfold run
    rw [Machine.run_cons, isStep]
  have settled :
      (r.serverFrame parseDuration ready).toClient = r.toClient ∧
        ((r.serverFrame parseDuration ready).exit.isSome = true ∨
          (r.serverFrame parseDuration ready).held = []) := by
    rcases outcome with ⟨toClient, exited⟩ | granted
    · exact ⟨toClient, Or.inl exited⟩
    · rcases withholds with suppresses | disconnects
      · have suppressed := granted.suppress suppresses
        cases turn.delivers with
        | left exited _ toClient =>
            exact ⟨toClient, Or.inl exited⟩
        | settled _ held _ toClient =>
            rw [suppressed, if_pos rfl] at toClient
            exact ⟨toClient, Or.inr held⟩
        | dropped other _ _ _ _ =>
            exact absurd isReady other
        | held other _ _ _ _ _ =>
            exact absurd isReady other
        | written other _ _ _ _ _ _ =>
            exact absurd isReady other
      · obtain ⟨toClient, exited⟩ :=
          turn.disconnected (granted.disconnect disconnects)
        exact ⟨toClient, Or.inl exited⟩
  obtain ⟨toClient, closed⟩ := settled
  intro d member
  rw [isRun] at member
  rcases closed with exited | held
  · rw [run_of_exit sha256 parseDuration exited, toClient] at member
    exact Or.inl member
  · have origin :=
      (since_run sha256 parseDuration (r.serverFrame parseDuration ready)
        later).origin d (List.mem_append_left _ member)
    rw [toClient, held, List.append_nil, turn.received] at origin
    exact origin

/-- Where a gated `CommandComplete` and what follows it can be. -/
theorem withheld_since_complete
    {id : Nat}
    {startup : StartupMetadata}
    {scenarios : List Scenario}
    {before between : List Input}
    {complete : Frame}
    (tag : complete.backendTag = .commandComplete)
    (latest :
      ∀ f ∈ serverFrames between, f.backendTag ≠ .readyForQuery)
    (gated :
      ((start id startup scenarios).run sha256 parseDuration before).gate
        complete = true)
    (running :
      ((start id startup scenarios).run sha256 parseDuration
        (before ++ .server (.frame complete) :: between)).exit = none) :
    ∀ d ∈ ((start id startup scenarios).run sha256 parseDuration
        (before ++ .server (.frame complete) :: between)).toClient,
      d.index ≠ (serverFrames before).length ∧
        ((((start id startup scenarios).run sha256 parseDuration
            before).observeServer parseDuration complete).2.suppress = false →
          d.index < (serverFrames before).length) := by
  generalize atBefore :
    (start id startup scenarios).run sha256 parseDuration before = r at gated
  have shape :
      (start id startup scenarios).run sha256 parseDuration
          (before ++ .server (.frame complete) :: between) =
        (r.step sha256 parseDuration (.server (.frame complete))).run sha256
          parseDuration between := by
    rw [run_append, atBefore]
    rfl
  rw [shape] at running ⊢
  have stepRunning := running_of_run sha256 parseDuration between running
  have wasRunning : r.exit = none :=
    running_of_run sha256 parseDuration [.server (.frame complete)]
      stepRunning
  have number : r.received = (serverFrames before).length := by
    have transparent :=
      transparent_run sha256 parseDuration id startup scenarios before
    rw [atBefore] at transparent
    exact transparent.received wasRunning
  have earlier
      {d : Delivery}
      (member : d ∈ r.toClient ++ r.held) :
      d.index < (serverFrames before).length := by
    rw [← atBefore] at member
    exact index_lt_received sha256 parseDuration member
  have isStep :
      r.step sha256 parseDuration (.server (.frame complete)) =
        r.serverFrame parseDuration complete :=
    if_neg (by simp [wasRunning])
  rw [isStep] at running stepRunning ⊢
  have turn := serverFrame_turn parseDuration r complete
  intro d member
  cases turn.delivers with
  | left exited _ _ =>
      rw [stepRunning] at exited
      cases exited
  | settled ready _ _ _ =>
      have notBoth : complete.backendTag = .readyForQuery := ready
      rw [tag] at notBoth
      cases notBoth
  | dropped _ suppressed held _ toClient =>
      have origin :=
        (since_run sha256 parseDuration (r.serverFrame parseDuration complete)
          between).origin d (List.mem_append_left _ member)
      rw [toClient, held, turn.received, number] at origin
      refine ⟨?_, ?_⟩
      · rcases origin with old | new
        · exact Nat.ne_of_lt (earlier old)
        · omega
      · intro unsuppressed
        rw [suppressed] at unsuppressed
        cases unsuppressed
  | held _ _ held _ _ toClient =>
      have closed : (r.serverFrame parseDuration complete).held ≠ [] := by
        simp [held]
      have unwritten :=
        gate_stays_closed sha256 parseDuration closed latest running
      rw [unwritten, toClient] at member
      have old := earlier (List.mem_append_left _ member)
      exact ⟨Nat.ne_of_lt old, fun _ => old⟩
  | written _ _ ungated _ _ _ _ =>
      rw [gated] at ungated
      cases ungated

/-- A commit or rollback completion is decided by the front cycle. -/
theorem decided_of_named
    {s : ConnectionState}
    {f : Frame}
    {name : String}
    (completion :
      name = "transaction.commit.completed" ∨
        name = "transaction.rollback.completed")
    (named : name ∈ s.backendNames f) :
    ∃ c,
      s.cycles.head? = some c ∧ s.reliable = true ∧
        ((name = "transaction.commit.completed" ∧
            c.last.statementClass = .commit ∧ c.command = "COMMIT") ∨
          (name = "transaction.rollback.completed" ∧
            c.last.statementClass = .rollback ∧ c.command = "ROLLBACK")) := by
  have isCompletion : isCompletionName name = true := by
    rcases completion with rfl | rfl
    · rfl
    · rfl
  obtain ⟨status, -, decision⟩ :=
    completed_of_mem_backendNames isCompletion named
  obtain ⟨c, completes⟩ := completes_of_completed decision
  refine ⟨c, completes.front, completes.reliable, ?_⟩
  rcases completes.decided with commit | rollback | ⟨implicit, -⟩
  · exact Or.inl commit
  · exact Or.inr rollback
  · rw [implicit] at completion
    exact absurd completion (by decide)

/-- A matcher that has not fired yet closes the gate for its own event. -/
theorem gate_of_unfired
    {r : Relay}
    {inputs : List Input}
    {i : Nat}
    {m : Matcher}
    {f : Frame}
    (running : (r.run sha256 parseDuration inputs).exit = none)
    (target : (r.run sha256 parseDuration inputs).matchers[i]? = some m)
    (unfired : m.fired = false)
    (boundary : r.state.completionBoundary f = some m.scenario.when.event) :
    r.gate f = true := by
  obtain ⟨m₀, source, follow⟩ :=
    exists_source_of_follows (follows_run sha256 parseDuration inputs running)
      target
  unfold gate
  rw [boundary, Option.any_some, List.any_eq_true]
  refine ⟨m₀, List.mem_of_getElem? source, ?_⟩
  simp [Matcher.needsGate, follow.unfired unfired, follow.scenario]

/--
No acknowledgement leak.  Let a matcher on a commit or rollback completion fire
at a `ReadyForQuery` and suppress or disconnect.  Then the front cycle has a
last `CommandComplete`, and if no `PortalSuspended` came behind it, neither
that frame nor the `ReadyForQuery` has been written when the fault fires or is
written by any continuation.  Unless `apply` suppressed that frame itself, the
same holds of every server frame between the two.

`toClient` only grows, and a written frame is known by its position among the
server frames.
-/
theorem no_acknowledgement_leak
    (id : Nat)
    (startup : StartupMetadata)
    (scenarios : List Scenario)
    (inputs later : List Input)
    (ready : Frame)
    (isReady : ready.backendTag = .readyForQuery)
    (valid : ValidStatus inputs)
    (loopPoint :
      ((start id startup scenarios).run sha256 parseDuration inputs).exit =
        none)
    (i : Nat)
    (m n : Matcher)
    (unfired :
      ((start id startup scenarios).run sha256 parseDuration
          inputs).matchers[i]? = some m ∧ m.fired = false)
    (fired :
      ((start id startup scenarios).run sha256 parseDuration
          (inputs ++ [.server (.frame ready)])).matchers[i]? = some n ∧
        n.fired = true)
    (completion :
      m.scenario.when.event = "transaction.commit.completed" ∨
        m.scenario.when.event = "transaction.rollback.completed")
    (withholds :
      m.scenario.action.suppress.any Suppress.current = true ∨
        m.scenario.action.disconnect.isSome = true) :
    ∃ before complete between,
      inputs = before ++ .server (.frame complete) :: between ∧
        complete.backendTag = .commandComplete ∧
        (∀ f ∈ serverFrames between,
          f.backendTag ≠ .commandComplete ∧
            f.backendTag ≠ .readyForQuery) ∧
        History.frontId
            ((start id startup scenarios).run sha256 parseDuration
              before).state =
          History.frontId
            ((start id startup scenarios).run sha256 parseDuration
              inputs).state ∧
        ((∀ f ∈ serverFrames between, f.backendTag ≠ .portalSuspended) →
          ∀ d ∈
              ((start id startup scenarios).run sha256 parseDuration
                  inputs).toClient ++
                ((start id startup scenarios).run sha256 parseDuration
                  (inputs ++ .server (.frame ready) :: later)).toClient,
            d.index ≠ (serverFrames before).length ∧
              d.index ≠ (serverFrames inputs).length ∧
              ((((start id startup scenarios).run sha256 parseDuration
                  before).observeServer parseDuration complete).2.suppress =
                  false →
                ¬ ((serverFrames before).length < d.index ∧
                  d.index < (serverFrames inputs).length))) := by
  generalize atReady :
    (start id startup scenarios).run sha256 parseDuration inputs = r
  have running : r.exit = none := by rw [← atReady]; exact loopPoint
  have turn := serverFrame_turn parseDuration r ready
  have isStep :
      r.step sha256 parseDuration (.server (.frame ready)) =
        r.serverFrame parseDuration ready :=
    if_neg (by simp [running])
  rw [atReady] at unfired
  rw [run_concat, atReady, isStep] at fired
  -- The fault names a completion that the front cycle decides.
  obtain ⟨named, outcome⟩ :=
    turn.fires i m n unfired.1 fired.1 unfired.2 fired.2
  obtain ⟨c, front, reliable, decided⟩ := decided_of_named completion named
  have tagged : c.command ≠ "" := by
    rcases decided with ⟨-, -, command⟩ | ⟨-, -, command⟩ <;>
      rw [command] <;> decide
  obtain ⟨before, complete, between, origin⟩ :=
    (origins_run sha256 parseDuration id startup scenarios inputs valid
      loopPoint).front c (by rw [atReady]; exact front) tagged
  obtain ⟨c₀, wasFront, sameId, sameLast⟩ := origin.front
  refine ⟨before, complete, between, origin.shape, origin.tag, origin.latest,
    ?_, ?_⟩
  · simp [History.frontId, wasFront, front, sameId]
  intro unsuspended
  -- The prediction at the `CommandComplete` was the same completion.
  have boundary :
      ((start id startup scenarios).run sha256 parseDuration
          before).state.completionBoundary complete =
        some m.scenario.when.event := by
    refine boundary_of_decision origin.tag wasFront
      (origin.reliable (by rw [atReady]; exact reliable)) ?_
    rw [← sameLast unsuspended, ← origin.command]
    exact decided
  have wholeRun :
      (start id startup scenarios).run sha256 parseDuration
          (before ++ .server (.frame complete) :: between) = r := by
    rw [← origin.shape]
    exact atReady
  have gated :
      ((start id startup scenarios).run sha256 parseDuration before).gate
        complete = true := by
    rw [run_append] at wholeRun
    rw [← wholeRun] at running unfired
    exact gate_of_unfired sha256 parseDuration running unfired.1 unfired.2
      boundary
  have withheld :=
    withheld_since_complete sha256 parseDuration origin.tag
      (fun f member => (origin.latest f member).2) gated
      (by rw [wholeRun]; exact running)
  rw [wholeRun] at withheld
  have number : r.received = (serverFrames inputs).length := by
    have transparent :=
      transparent_run sha256 parseDuration id startup scenarios inputs
    rw [atReady] at transparent
    exact transparent.received running
  have inOrder :
      (serverFrames before).length < (serverFrames inputs).length := by
    rw [origin.shape, serverFrames_append]
    simp [serverFrames]
  intro d member
  have sources : d ∈ r.toClient ∨ r.received < d.index := by
    rcases List.mem_append.mp member with old | new
    · exact Or.inl old
    · rw [run_append, atReady] at new
      exact written_after_fault sha256 parseDuration running isReady outcome
        withholds later d new
  rcases sources with old | new
  · obtain ⟨notComplete, beforeComplete⟩ := withheld d old
    have arrived : d.index < (serverFrames inputs).length := by
      rw [← atReady] at old
      exact index_lt_received sha256 parseDuration
        (List.mem_append_left _ old)
    refine ⟨notComplete, Nat.ne_of_lt arrived, ?_⟩
    intro unsuppressed isBetween
    have early := beforeComplete unsuppressed
    omega
  · rw [number] at new
    exact ⟨by omega, by omega, fun _ isBetween => by omega⟩

end

theorem no_acknowledgement_leak_gatedCommit :
    ((start 1 default [dropCommit]).run sampleSha256 (fun _ => .ok 0)
        (gatedCommit ++
          [.server (.frame (message 'Z' (ascii "I")))])).matchers.map
        Matcher.fired = [true] ∧
      ∃ before complete between,
        gatedCommit = before ++ .server (.frame complete) :: between ∧
          complete.backendTag = .commandComplete ∧
          ((∀ f ∈ serverFrames between, f.backendTag ≠ .portalSuspended) →
            ∀ d ∈ ((start 1 default [dropCommit]).run sampleSha256
                (fun _ => .ok 0)
                (gatedCommit ++
                  [.server (.frame (message 'Z' (ascii "I")))])).toClient,
              d.index ≠ (serverFrames before).length ∧
                d.index ≠ (serverFrames gatedCommit).length) := by
  refine ⟨by decide +kernel, ?_⟩
  obtain ⟨before, complete, between, shape, tag, -, -, withheld⟩ :=
    no_acknowledgement_leak sampleSha256 (fun _ => .ok 0) 1 default
      [dropCommit] gatedCommit [] (message 'Z' (ascii "I")) (by decide)
      (by
        have noReady :
            ∀ f ∈ serverFrames gatedCommit,
              f.backendTag ≠ .readyForQuery := by
          decide +kernel
        intro f member ready
        exact absurd ready (noReady f member))
      (by decide +kernel) 0 (Matcher.new dropCommit)
      { scenario := dropCommit, seen := 1, fired := true }
      (by decide +kernel) (by decide +kernel) (by decide) (by decide)
  refine ⟨before, complete, between, shape, tag, ?_⟩
  intro unsuspended d member
  obtain ⟨notComplete, notReady, -⟩ :=
    withheld unsuspended d (List.mem_append_right _ member)
  exact ⟨notComplete, notReady⟩

end Relay

end Pgfault
