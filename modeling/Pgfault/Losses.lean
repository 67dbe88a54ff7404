import Pgfault.TraceAudit
import Pgfault.Transparency

namespace Pgfault

open ConnectionState

/-!
# What faults cost

A matcher fires once, and every client frame or `ReadyForQuery` the relay
withholds costs a matcher its shot.  So a connection loses few frames
(`losses_bounded`).  No matcher fires while the observer has lost track of the
session, and the relay then passes everything on (`unreliable_passes_on`).
-/

/-- How many matchers have fired. -/
def spent (matchers : List Matcher) : Nat :=
  matchers.countP Matcher.fired

theorem spent_cons (m : Matcher) (rest : List Matcher) :
    spent (m :: rest) = spent rest + m.fired.toNat := by
  cases fired : m.fired <;> simp [spent, fired]

/-- Looking at an event costs a matcher its shot exactly if it fires. -/
theorem toNat_observe (m : Matcher) (e : Event) :
    (m.observe e).2.fired.toNat = m.fired.toNat + (m.observe e).1.toNat := by
  unfold Matcher.observe
  split
  · rename_i counted
    have unfired : m.fired = false := by
      simp only [Matcher.counts, Bool.and_eq_true, Bool.not_eq_true']
        at counted
      exact counted.1.1.2
    split <;> simp [unfired]
  · simp

section

variable (parseDuration : String → Except String Nat)

/-- Showing an event spends what fires; if nothing does, it changes nothing. -/
theorem applyMatchers_spent
    (e : Event)
    (matchers : List Matcher)
    (a : Applied) :
    spent matchers ≤ spent (applyMatchers parseDuration e matchers a).1 ∧
      (spent (applyMatchers parseDuration e matchers a).1 = spent matchers →
        (applyMatchers parseDuration e matchers a).2 = a) := by
  induction matchers generalizing a with
  | nil =>
      exact ⟨Nat.le_refl _, fun _ => rfl⟩
  | cons m rest inductionHypothesis =>
      have cost := toNat_observe m e
      simp only [applyMatchers]
      cases fires : (m.observe e).1 with
      | true =>
          rw [fires] at cost
          simp only [Bool.toNat_true] at cost
          simp only [if_true]
          split
          · simp only [spent_cons]
            omega
          · obtain ⟨more, -⟩ :=
              inductionHypothesis (a.fire parseDuration e m.scenario)
            simp only [spent_cons]
            omega
      | false =>
          rw [fires] at cost
          simp only [Bool.toNat_false, Nat.add_zero] at cost
          simp only [Bool.false_eq_true, if_false]
          split
          · simp only [spent_cons]
            exact ⟨by omega, by simp⟩
          · obtain ⟨more, quiet⟩ := inductionHypothesis a
            simp only [spent_cons]
            refine ⟨by omega, fun same => quiet ?_⟩
            omega

theorem applyEvents_spent
    (events : List Event)
    (matchers : List Matcher)
    (a : Applied)
    (noError : a.error = none) :
    spent matchers ≤ spent (applyEvents parseDuration events matchers a).1 ∧
      (spent (applyEvents parseDuration events matchers a).1 =
          spent matchers →
        (applyEvents parseDuration events matchers a).2 =
          { a with trace := a.trace ++ events.map .semantic }) := by
  induction events generalizing matchers a with
  | nil =>
      simp [applyEvents]
  | cons e rest inductionHypothesis =>
      obtain ⟨more, quiet⟩ :=
        applyMatchers_spent parseDuration e matchers
          { a with trace := a.trace ++ [.semantic e] }
      simp only [applyEvents]
      generalize
        applyMatchers parseDuration e matchers
          { a with trace := a.trace ++ [.semantic e] } = shown at more quiet
      split
      · rename_i failed
        refine ⟨more, fun same => ?_⟩
        rw [quiet same, noError] at failed
        cases failed
      · rename_i ok
        have noError : shown.2.error = none := by
          simpa using ok
        obtain ⟨later, quietLater⟩ :=
          inductionHypothesis shown.1 shown.2 noError
        refine ⟨Nat.le_trans more later, fun same => ?_⟩
        rw [quietLater (by omega), quiet (by omega)]
        simp

/-- A matcher does not look at an event of a lost observer. -/
theorem applyMatchers_unreliable
    {e : Event}
    (lost : e.semanticReliable = false)
    (matchers : List Matcher)
    (a : Applied) :
    applyMatchers parseDuration e matchers a = (matchers, a) := by
  induction matchers with
  | nil =>
      rfl
  | cons m rest inductionHypothesis =>
      have unseen : m.observe e = (false, m) := by
        simp [Matcher.observe, Matcher.counts, lost]
      simp only [applyMatchers, unseen, inductionHypothesis,
        Bool.false_eq_true, if_false, ite_self]

theorem applyEvents_unreliable
    {events : List Event}
    (lost : ∀ e ∈ events, e.semanticReliable = false)
    (matchers : List Matcher)
    (a : Applied) :
    (applyEvents parseDuration events matchers a).1 = matchers := by
  induction events generalizing a with
  | nil =>
      rfl
  | cons e rest inductionHypothesis =>
      obtain ⟨first, later⟩ := List.forall_mem_cons.mp lost
      simp only [applyEvents, applyMatchers_unreliable parseDuration first]
      split
      · rfl
      · exact inductionHypothesis later _

end

namespace Relay

section

variable (sha256 : Bytes → String) (parseDuration : String → Except String Nat)

/-- What an `apply` spends; one that spends nothing only records its events. -/
structure Spends
    (r : Relay)
    (events : List Event)
    (t : Relay)
    (d : Disposition) : Prop where
  more : spent r.matchers ≤ spent t.matchers
  quiet :
    spent t.matchers = spent r.matchers →
    d = {} ∧
      t =
        { r with
          matchers := t.matchers
          trace := r.trace ++ events.map .semantic
          exit := none }

theorem apply_spends (r : Relay) (events : List Event) :
    Spends r events (r.apply parseDuration events).1
      (r.apply parseDuration events).2 := by
  obtain ⟨more, quiet⟩ :=
    applyEvents_spent parseDuration events r.matchers r.borrow rfl
  refine ⟨more, fun same => ?_⟩
  have unchanged := quiet same
  simp only [apply, unchanged]
  exact ⟨rfl, rfl⟩

theorem faults_semantic (trace : List Record) (events : List Event) :
    Trace.faults (trace ++ events.map .semantic) = Trace.faults trace := by
  rw [Trace.faults_append]
  have silent : Trace.faults (events.map .semantic) = [] := by
    induction events with
    | nil =>
        rfl
    | cons e rest inductionHypothesis =>
        exact inductionHypothesis
  rw [silent, List.append_nil]

/-- What a client frame costs; one that costs nothing is passed on. -/
structure Passes (r : Relay) (f : Frame) (t : Relay) : Prop where
  more : spent r.matchers ≤ spent t.matchers
  quiet :
    spent t.matchers = spent r.matchers →
    t.toServer = r.toServer ++ [f] ∧ t.truncate = r.truncate ∧
      Trace.faults t.trace = Trace.faults r.trace

theorem forward_passes (r : Relay) (f : Frame) :
    Passes r f (r.forward parseDuration f) := by
  unfold forward
  simp only
  split
  · obtain ⟨more, quiet⟩ :=
      apply_spends parseDuration
        { r with
          toServer := r.toServer ++ [f]
          state := r.state.forwarded.2 }
        [r.state.forwarded.1]
    generalize
      apply parseDuration
        { r with
          toServer := r.toServer ++ [f]
          state := r.state.forwarded.2 }
        [r.state.forwarded.1] = shown at more quiet ⊢
    have passes : Passes r f shown.1 := by
      refine ⟨more, fun same => ?_⟩
      obtain ⟨-, unchanged⟩ := quiet same
      rw [unchanged]
      exact ⟨rfl, rfl, faults_semantic r.trace _⟩
    split
    · exact ⟨passes.more, passes.quiet⟩
    · exact passes
  · exact ⟨Nat.le_refl _, fun _ => ⟨rfl, rfl, rfl⟩⟩

theorem clientFrame_passes (r : Relay) (f : Frame) :
    Passes r f (r.clientFrame sha256 parseDuration f) := by
  obtain ⟨more, quiet⟩ :=
    apply_spends parseDuration
      { r with state := (r.state.frontend sha256 f).2 }
      (r.state.frontend sha256 f).1
  unfold clientFrame
  simp only
  generalize
    apply parseDuration { r with state := (r.state.frontend sha256 f).2 }
        (r.state.frontend sha256 f).1 = shown at more quiet ⊢
  change spent r.matchers ≤ spent shown.1.matchers at more
  split
  · rename_i exited
    refine ⟨more, fun same => ?_⟩
    rw [(quiet same).2] at exited
    cases exited
  · split
    · rename_i disconnects
      refine ⟨more, fun same => ?_⟩
      rw [(quiet same).1] at disconnects
      cases disconnects
    · have sent :
          Passes r f
            (if shown.2.suppress = true then shown.1
            else shown.1.forward parseDuration f) := by
        split
        · rename_i suppressed
          refine ⟨more, fun same => ?_⟩
          rw [(quiet same).1] at suppressed
          cases suppressed
        · obtain ⟨later, quietLater⟩ := forward_passes parseDuration shown.1 f
          refine ⟨Nat.le_trans more later, fun same => ?_⟩
          obtain ⟨toServer, truncate, faults⟩ :=
            quietLater (Nat.le_antisymm (by omega) later)
          have unspent : spent shown.1.matchers = spent r.matchers := by
            omega
          obtain ⟨-, unchanged⟩ := quiet unspent
          rw [toServer, truncate, faults, unchanged]
          exact ⟨rfl, rfl, faults_semantic r.trace _⟩
      generalize
        (if shown.2.suppress = true then shown.1
        else shown.1.forward parseDuration f) = last at sent ⊢
      split
      · exact ⟨sent.more, sent.quiet⟩
      · exact sent

/-- Inside the loop, what comes after a server frame is observed is silent. -/
theorem serverFrame_keeps
    {r : Relay}
    {f : Frame}
    (running : (r.serverFrame parseDuration f).exit = none) :
    (r.serverFrame parseDuration f).matchers =
        (r.observeServer parseDuration f).1.matchers ∧
      (r.serverFrame parseDuration f).trace =
        (r.observeServer parseDuration f).1.trace := by
  revert running
  unfold serverFrame
  simp only
  generalize r.observeServer parseDuration f = shown
  have counted :
      (if f.backendTag = .dataRow then
        { shown.1 with truncate := shown.1.truncate.map (· - 1) }
      else shown.1).matchers = shown.1.matchers ∧
        (if f.backendTag = .dataRow then
          { shown.1 with truncate := shown.1.truncate.map (· - 1) }
        else shown.1).trace = shown.1.trace := by
    split <;> exact ⟨rfl, rfl⟩
  generalize
    (if f.backendTag = .dataRow then
      { shown.1 with truncate := shown.1.truncate.map (· - 1) }
    else shown.1) = before at counted ⊢
  have matchers :=
    (deliver_keeps before (r.gate f) shown.2.suppress ⟨r.received, f⟩).2.2.2
  have trace :=
    deliver_trace before (r.gate f) shown.2.suppress ⟨r.received, f⟩
  split
  · exact fun _ => ⟨rfl, rfl⟩
  · split
    · exact fun _ => ⟨rfl, rfl⟩
    · split
      · intro running
        cases running
      · split
        · intro running
          cases running
        · exact fun _ =>
            ⟨matchers.trans counted.1, trace.trans counted.2⟩

/-- A turn inside the loop is one of the branches for a frame. -/
theorem step_branches
    {r : Relay}
    {input : Input}
    (running : (r.step sha256 parseDuration input).exit = none) :
    (∃ f,
        input = .client (.frame f) ∧
          r.step sha256 parseDuration input =
            r.clientFrame sha256 parseDuration f ∧
          ClientTurn sha256 r f (r.clientFrame sha256 parseDuration f)) ∨
      ∃ f,
        input = .server (.frame f) ∧
          r.step sha256 parseDuration input = r.serverFrame parseDuration f ∧
          ServerTurn parseDuration r f (r.serverFrame parseDuration f) := by
  have inside : r.exit.isSome ≠ true := by
    simp [running_of_run sha256 parseDuration [input] running]
  rcases step_running sha256 parseDuration running with
      ⟨f, rfl, -⟩ | ⟨f, rfl, -⟩
  · exact Or.inl ⟨f, rfl, if_neg inside,
      clientFrame_turn sha256 parseDuration r f⟩
  · exact Or.inr ⟨f, rfl, if_neg inside, serverFrame_turn parseDuration r f⟩

/-- What observing a server frame costs. -/
theorem observeServer_spends (r : Relay) (f : Frame) :
    Spends
      { r with
        state := (r.state.backend f).2
        received := r.received + 1 }
      (r.state.backend f).1
      (r.observeServer parseDuration f).1
      (r.observeServer parseDuration f).2 :=
  apply_spends parseDuration _ _

/-! ## Losses -/

/-- How many of some server frames are `ReadyForQuery`. -/
def readies (frames : List Frame) : Nat :=
  frames.countP fun f => f.backendTag = .readyForQuery

@[simp] theorem readies_append (frames later : List Frame) :
    readies (frames ++ later) = readies frames + readies later :=
  List.countP_append

/-- What has come in against what has gone out and what has fired. -/
structure Accounts
    (scenarios : List Scenario)
    (inputs : List Input)
    (r : Relay) : Prop where
  matchers : r.matchers.length = scenarios.length
  covers :
    (clientFrames inputs).length + readies (serverFrames inputs) ≤
      r.toServer.length + readies (r.toClient.map Delivery.frame) +
        spent r.matchers

/-- A client frame is passed on, or a matcher has fired. -/
theorem Accounts.client
    {scenarios : List Scenario}
    {inputs : List Input}
    {r t : Relay}
    {f : Frame}
    (accounts : Accounts scenarios inputs r)
    (turn : ClientTurn sha256 r f t)
    (passes : Passes r f t) :
    Accounts scenarios (inputs ++ [.client (.frame f)]) t := by
  have covers := accounts.covers
  have one : clientFrames [.client (.frame f)] = [f] := rfl
  have none_ : serverFrames [.client (.frame f)] = [] := rfl
  refine ⟨turn.follows.length_eq.symm.trans accounts.matchers, ?_⟩
  rw [clientFrames_append, serverFrames_append, one, none_, List.append_nil,
    List.length_append, List.length_singleton, turn.toClient]
  by_cases same : spent t.matchers = spent r.matchers
  · rw [(passes.quiet same).1, List.length_append, List.length_singleton]
    omega
  · have more := passes.more
    rcases turn.toServer with stopped | sent
    · rw [stopped]
      omega
    · rw [sent, List.length_append, List.length_singleton]
      omega

/-- A `ReadyForQuery` is passed on, or a matcher has fired. -/
theorem Accounts.server
    {scenarios : List Scenario}
    {inputs : List Input}
    {r t : Relay}
    {f : Frame}
    (accounts : Accounts scenarios inputs r)
    (running : t.exit = none)
    (turn : ServerTurn parseDuration r f t)
    (matchers : t.matchers = (r.observeServer parseDuration f).1.matchers) :
    Accounts scenarios (inputs ++ [.server (.frame f)]) t := by
  have covers := accounts.covers
  have one : serverFrames [.server (.frame f)] = [f] := rfl
  have none_ : clientFrames [.server (.frame f)] = [] := rfl
  obtain ⟨more, quiet⟩ := observeServer_spends parseDuration r f
  rw [← matchers] at more quiet
  change spent r.matchers ≤ spent t.matchers at more
  refine ⟨turn.follows.length_eq.symm.trans accounts.matchers, ?_⟩
  rw [clientFrames_append, serverFrames_append, one, none_, List.append_nil,
    turn.toServer, readies_append]
  have other (unlike : f.backendTag ≠ .readyForQuery) : readies [f] = 0 := by
    simp [readies, unlike]
  have atMost : readies [f] ≤ 1 := List.countP_le_length
  cases turn.delivers with
  | left exited held toClient =>
      rw [running] at exited
      cases exited
  | settled ready held heldSize toClient =>
      by_cases suppressed :
          (r.observeServer parseDuration f).2.suppress = true
      · have differs : spent t.matchers ≠ spent r.matchers := by
          intro same
          rw [(quiet same).1] at suppressed
          cases suppressed
        rw [if_pos suppressed] at toClient
        rw [toClient]
        omega
      · rw [if_neg suppressed] at toClient
        rw [toClient]
        simp only [List.map_append, List.map_cons, List.map_nil,
          readies_append]
        omega
  | dropped unlike suppressed held heldSize toClient =>
      rw [toClient, other unlike]
      omega
  | held unlike unsuppressed held heldSize bound toClient =>
      rw [toClient, other unlike]
      omega
  | written unlike unsuppressed ungated wasEmpty held heldSize toClient =>
      rw [toClient, other unlike]
      simp only [List.map_append, readies_append]
      omega

theorem accounts_run
    (id : Nat)
    (startup : StartupMetadata)
    (scenarios : List Scenario)
    (inputs : List Input)
    (loopPoint :
      ((start id startup scenarios).run sha256 parseDuration inputs).exit =
        none) :
    Accounts scenarios inputs
      ((start id startup scenarios).run sha256 parseDuration inputs) := by
  induction inputs using List.reverseRecOn with
  | nil =>
      exact ⟨List.length_map _, Nat.zero_le _⟩
  | append_singleton before input inductionHypothesis =>
      rw [run_concat] at loopPoint ⊢
      generalize
        (start id startup scenarios).run sha256 parseDuration before = r
          at inductionHypothesis loopPoint ⊢
      have running : r.exit = none :=
        running_of_run sha256 parseDuration [input] loopPoint
      have accounts := inductionHypothesis running
      rcases step_branches sha256 parseDuration loopPoint with
          ⟨f, rfl, stepped, turn⟩ | ⟨f, rfl, stepped, turn⟩
      · rw [stepped]
        exact accounts.client sha256 turn
          (clientFrame_passes sha256 parseDuration r f)
      · rw [stepped] at loopPoint ⊢
        exact accounts.server parseDuration loopPoint turn
          (serverFrame_keeps parseDuration loopPoint).1

/--
Faults are bounded in what they cost.  At every loop point the client frames that
were not passed on and the `ReadyForQuery` frames the client did not get are
together at most as many as the matchers that have fired, and these are at most
as many as the scenarios.
-/
theorem losses_bounded
    (id : Nat)
    (startup : StartupMetadata)
    (scenarios : List Scenario)
    (inputs : List Input)
    (loopPoint :
      ((start id startup scenarios).run sha256 parseDuration inputs).exit =
        none) :
    let r := (start id startup scenarios).run sha256 parseDuration inputs
    (clientFrames inputs).length + readies (serverFrames inputs) ≤
        r.toServer.length + readies (r.toClient.map Delivery.frame) +
          spent r.matchers ∧
      spent r.matchers ≤ scenarios.length := by
  intro r
  have accounts :=
    accounts_run sha256 parseDuration id startup scenarios inputs loopPoint
  refine ⟨accounts.covers, ?_⟩
  rw [← accounts.matchers]
  exact List.countP_le_length

theorem losses_bounded_droppedQuery :
    droppedRun.exit = none ∧
      (clientFrames droppedQuery).length +
          readies (serverFrames droppedQuery) ≤
        droppedRun.toServer.length +
            readies (droppedRun.toClient.map Delivery.frame) +
          spent droppedRun.matchers := by
  have running : droppedRun.exit = none := by
    decide +kernel
  exact ⟨running,
    (losses_bounded sampleSha256 (fun _ => .ok 0) 1 default dropTwice
      droppedQuery running).1⟩

/-! ## A lost observer -/

/-- Events raised by a lost observer are shown to no effect. -/
theorem apply_unreliable
    (r : Relay)
    {events : List Event}
    (lost : ∀ e ∈ events, e.semanticReliable = false) :
    (r.apply parseDuration events).1.matchers = r.matchers := by
  simp only [apply, applyEvents_unreliable parseDuration lost]

theorem forward_unreliable
    (r : Relay)
    (f : Frame)
    (lost : r.state.reliable = false) :
    (r.forward parseDuration f).matchers = r.matchers := by
  have raised :
      ∀ e ∈ [r.state.forwarded.1], e.semanticReliable = false := by
    intro e member
    rw [List.mem_singleton.mp member]
    exact lost
  unfold forward
  simp only
  split
  · split <;> exact apply_unreliable parseDuration _ raised
  · rfl

theorem clientFrame_unreliable
    (r : Relay)
    (f : Frame)
    (lost : r.state.reliable = false) :
    (r.clientFrame sha256 parseDuration f).matchers = r.matchers := by
  have accepted : (r.state.accept sha256 f).reliable = false :=
    (accept_grows sha256 r.state f).reliable.trans lost
  have raised :
      ∀ e ∈ (r.state.frontend sha256 f).1, e.semanticReliable = false := by
    intro e member
    exact (mem_frontend member).2.2.2.trans accepted
  have observed :
      (r.state.frontend sha256 f).2.reliable = false := by
    rw [frontend_state, recount_reliable]
    exact accepted
  have shown :=
    apply_unreliable parseDuration
      { r with state := (r.state.frontend sha256 f).2 } raised
  have state :
      (apply parseDuration
        { r with state := (r.state.frontend sha256 f).2 }
        (r.state.frontend sha256 f).1).1.state.reliable = false := observed
  unfold clientFrame
  simp only
  generalize
    apply parseDuration { r with state := (r.state.frontend sha256 f).2 }
      (r.state.frontend sha256 f).1 = applied at shown state ⊢
  have sent := forward_unreliable parseDuration applied.1 f state
  split
  · exact shown
  · split
    · exact shown
    · have kept :
          (if applied.2.suppress = true then applied.1
          else applied.1.forward parseDuration f).matchers = r.matchers := by
        split
        · exact shown
        · exact sent.trans shown
      generalize
        (if applied.2.suppress = true then applied.1
        else applied.1.forward parseDuration f) = last at kept ⊢
      split <;> exact kept

theorem observeServer_unreliable
    (r : Relay)
    (f : Frame)
    (lost : r.state.reliable = false) :
    (r.observeServer parseDuration f).1.matchers = r.matchers := by
  refine apply_unreliable parseDuration
    { r with
      state := (r.state.backend f).2
      received := r.received + 1 } ?_
  intro e member
  exact (mem_backend member).2.2.2.trans lost

/-- The gate never closes for a lost observer. -/
theorem gate_unreliable
    (r : Relay)
    (f : Frame)
    (lost : r.state.reliable = false) :
    r.gate f = false := by
  simp [gate, completionBoundary, lost]

/-- Without the gate nothing is held after nothing. -/
theorem deliver_ungated
    {r : Relay}
    (empty : r.held = [])
    (suppress : Bool)
    (d : Delivery) :
    (r.deliver false suppress d).held = [] := by
  unfold deliver
  split
  · rfl
  · split
    · exact empty
    · rw [if_neg (by simp [empty])]
      exact empty

theorem serverFrame_unreliable
    {r : Relay}
    (f : Frame)
    (lost : r.state.reliable = false)
    (empty : r.held = []) :
    (r.serverFrame parseDuration f).held = [] := by
  have observed : (r.observeServer parseDuration f).1.held = [] := empty
  unfold serverFrame
  simp only
  rw [gate_unreliable r f lost]
  generalize r.observeServer parseDuration f = shown at observed ⊢
  have counted :
      (if f.backendTag = .dataRow then
        { shown.1 with truncate := shown.1.truncate.map (· - 1) }
      else shown.1).held = [] := by
    split <;> exact observed
  generalize
    (if f.backendTag = .dataRow then
      { shown.1 with truncate := shown.1.truncate.map (· - 1) }
    else shown.1) = before at counted ⊢
  have delivered :=
    deliver_ungated counted shown.2.suppress ⟨r.received, f⟩
  generalize
    before.deliver false shown.2.suppress ⟨r.received, f⟩ = last
      at delivered ⊢
  split
  · exact observed
  · split
    · exact observed
    · split
      · exact observed
      · split <;> exact delivered

/-- What a run of a lost observer passes on, from where it started. -/
structure PassesOn (r : Relay) (inputs : List Input) (t : Relay) : Prop where
  matchers : t.matchers = r.matchers
  faults : Trace.faults t.trace = Trace.faults r.trace
  toServer : t.toServer = r.toServer ++ clientFrames inputs
  received : t.received = r.received + (serverFrames inputs).length
  toClient :
    t.toClient ++ t.held =
      r.toClient ++ r.held ++
        (serverFrames inputs).mapIdx fun i f => ⟨r.received + i, f⟩
  held : r.held = [] → t.held = []

theorem PassesOn.client
    {r s t : Relay}
    {inputs : List Input}
    {f : Frame}
    (passesOn : PassesOn r inputs s)
    (turn : ClientTurn sha256 s f t)
    (passes : Passes s f t)
    (matchers : t.matchers = s.matchers) :
    PassesOn r (inputs ++ [.client (.frame f)]) t := by
  obtain ⟨toServer, -, faults⟩ := passes.quiet (by rw [matchers])
  have one : clientFrames [.client (.frame f)] = [f] := rfl
  have silent : serverFrames [.client (.frame f)] = [] := rfl
  refine ⟨matchers.trans passesOn.matchers, faults.trans passesOn.faults,
    ?_, ?_, ?_, ?_⟩
  · rw [toServer, passesOn.toServer, clientFrames_append, one,
      List.append_assoc]
  · rw [turn.received, passesOn.received, serverFrames_append, silent,
      List.append_nil]
  · rw [turn.toClient, turn.held, passesOn.toClient, serverFrames_append,
      silent, List.append_nil]
  · rw [turn.held]
    exact passesOn.held

theorem PassesOn.server
    {r s t : Relay}
    {inputs : List Input}
    {f : Frame}
    (passesOn : PassesOn r inputs s)
    (running : t.exit = none)
    (turn : ServerTurn parseDuration s f t)
    (kept :
      t.matchers = (s.observeServer parseDuration f).1.matchers ∧
        t.trace = (s.observeServer parseDuration f).1.trace)
    (lost : s.state.reliable = false)
    (unheld : s.held = [] → t.held = []) :
    PassesOn r (inputs ++ [.server (.frame f)]) t := by
  have one : serverFrames [.server (.frame f)] = [f] := rfl
  have silent : clientFrames [.server (.frame f)] = [] := rfl
  have matchers := observeServer_unreliable parseDuration s f lost
  obtain ⟨disposition, observed⟩ :=
    (observeServer_spends parseDuration s f).quiet (by rw [matchers])
  have trace :
      (s.observeServer parseDuration f).1.trace =
        s.trace ++ (s.state.backend f).1.map .semantic := by
    rw [observed]
  have delivers := turn.delivers
  rw [disposition] at delivers
  have arrived :
      t.toClient ++ t.held = s.toClient ++ s.held ++ [⟨s.received, f⟩] := by
    cases delivers with
    | left exited held toClient =>
        rw [running] at exited
        cases exited
    | settled ready held heldSize toClient =>
        rw [toClient, held]
        exact List.append_nil _
    | dropped unlike suppressed held heldSize toClient =>
        cases suppressed
    | held unlike unsuppressed held heldSize bound toClient =>
        rw [toClient, held, List.append_assoc]
    | written unlike unsuppressed ungated wasEmpty held heldSize toClient =>
        rw [toClient, held, wasEmpty, List.append_nil, List.append_nil]
  refine ⟨kept.1.trans (matchers.trans passesOn.matchers), ?_, ?_, ?_, ?_,
    fun empty => unheld (passesOn.held empty)⟩
  · rw [kept.2, trace, faults_semantic, passesOn.faults]
  · rw [turn.toServer, passesOn.toServer, clientFrames_append, silent,
      List.append_nil]
  · rw [turn.received, passesOn.received, serverFrames_append, one,
      List.length_append, List.length_singleton, Nat.add_assoc]
  · rw [arrived, passesOn.toClient, serverFrames_append, one,
      List.mapIdx_concat, passesOn.received, List.append_assoc]

/-- A client frame does not help a lost observer. -/
theorem ClientTurn.unreliable
    {r t : Relay}
    {f : Frame}
    (turn : ClientTurn sha256 r f t)
    (lost : r.state.reliable = false) :
    t.state.reliable = false := by
  obtain ⟨counters, state⟩ := turn.state
  rw [state, recount_reliable]
  exact (accept_grows sha256 r.state f).reliable.trans lost

/-- Only a valid `ReadyForQuery` helps a lost observer. -/
theorem ServerTurn.unreliable
    {r t : Relay}
    {f : Frame}
    (turn : ServerTurn parseDuration r f t)
    (stays : readyStatus f = none)
    (lost : r.state.reliable = false) :
    t.state.reliable = false := by
  obtain ⟨counters, state⟩ := turn.state
  rw [state, recount_reliable]
  by_contra found
  have before : r.state.reliable = true :=
    reliable_of_advance stays (by simpa using found)
  rw [lost] at before
  cases before

/-- One turn of a lost observer passes its frame on. -/
theorem PassesOn.step
    {r s : Relay}
    {inputs : List Input}
    {input : Input}
    (passesOn : PassesOn r inputs s)
    (lost : s.state.reliable = false)
    (running : (s.step sha256 parseDuration input).exit = none) :
    PassesOn r (inputs ++ [input]) (s.step sha256 parseDuration input) ∧
      ((∀ f ∈ serverFrames [input], readyStatus f = none) →
        (s.step sha256 parseDuration input).state.reliable = false) := by
  rcases step_branches sha256 parseDuration running with
      ⟨f, rfl, stepped, turn⟩ | ⟨f, rfl, stepped, turn⟩
  · rw [stepped]
    exact ⟨passesOn.client sha256 turn
        (clientFrame_passes sha256 parseDuration s f)
        (clientFrame_unreliable sha256 parseDuration s f lost),
      fun _ => turn.unreliable sha256 lost⟩
  · rw [stepped] at running ⊢
    exact ⟨passesOn.server parseDuration running turn
        (serverFrame_keeps parseDuration running) lost
        (serverFrame_unreliable parseDuration f lost),
      fun stay =>
        turn.unreliable parseDuration (stay f (List.mem_singleton_self f))
          lost⟩

end

end Relay

end Pgfault
