import Pgfault.Observer
import Pgfault.Relay

namespace Pgfault

open Queue ConnectionState

/-!
# What one turn of the relay does

A turn observes a frame, shows the raised events to the matchers, and then
writes, holds or drops the frame.  The lemmas here say what each part may
change, so that proofs about runs never open `clientFrame` or `serverFrame`.
-/

/-! ## Matchers -/

/-- A matcher after some events: the same scenario, and a mark that stays. -/
structure Follows (m n : Matcher) : Prop where
  scenario : n.scenario = m.scenario
  fired : m.fired = true → n.fired = true

theorem Follows.refl (m : Matcher) : Follows m m :=
  ⟨rfl, fun marked => marked⟩

theorem Follows.trans
    {m n o : Matcher}
    (first : Follows m n)
    (second : Follows n o) :
    Follows m o :=
  ⟨second.scenario.trans first.scenario,
    fun marked => second.fired (first.fired marked)⟩

/-- A mark that is not there later was not there before. -/
theorem Follows.unfired
    {m n : Matcher}
    (follows : Follows m n)
    (unmarked : n.fired = false) :
    m.fired = false := by
  by_contra marked
  rw [Bool.not_eq_false] at marked
  have stays := follows.fired marked
  rw [unmarked] at stays
  cases stays

theorem unfired_of_follows
    {before after : List Matcher}
    (follows : List.Forall₂ Follows before after)
    (unmarked : ∀ m ∈ after, m.fired = false) :
    ∀ m ∈ before, m.fired = false := by
  induction follows with
  | nil =>
      simp
  | cons head _ inductionHypothesis =>
      intro m member
      rcases List.mem_cons.mp member with isFirst | inRest
      · subst isFirst
        exact head.unfired (unmarked _ (by simp))
      · exact inductionHypothesis
          (fun n inAfter => unmarked n (by simp [inAfter])) m inRest

theorem follows_observe (m : Matcher) (e : Event) :
    Follows m (m.observe e).2 where
  scenario := m.observe_scenario e
  fired := by
    intro marked
    rw [Matcher.observe_of_fired e marked]
    exact marked

/-- What a scenario asks `apply` to do with the current frame. -/
structure Granted (action : Action) (d : Disposition) : Prop where
  suppress : action.suppress.any Suppress.current = true → d.suppress = true
  disconnect : action.disconnect.isSome = true → d.disconnect = true

namespace Applied

/-- The decisions of `a` are still there in `b`. -/
structure Extends (a b : Applied) : Prop where
  suppress : a.disposition.suppress = true → b.disposition.suppress = true
  disconnect :
    a.disposition.disconnect = true → b.disposition.disconnect = true

theorem Extends.refl (a : Applied) : Extends a a :=
  ⟨fun set => set, fun set => set⟩

theorem Extends.trans
    {a b c : Applied}
    (first : Extends a b)
    (second : Extends b c) :
    Extends a c :=
  ⟨fun set => second.suppress (first.suppress set),
    fun set => second.disconnect (first.disconnect set)⟩

theorem Extends.granted
    {a b : Applied}
    (extends_ : Extends a b)
    {action : Action}
    (granted : Granted action a.disposition) :
    Granted action b.disposition :=
  ⟨fun asked => extends_.suppress (granted.suppress asked),
    fun asked => extends_.disconnect (granted.disconnect asked)⟩

theorem act_extends (a : Applied) (action : Action) :
    Extends a (a.act action) :=
  ⟨fun set => by simp [act, set], fun set => by simp [act, set]⟩

theorem act_granted (a : Applied) (action : Action) :
    Granted action (a.act action).disposition :=
  ⟨fun asked => by simp [act, asked], fun asked => by simp [act, asked]⟩

/-- A fired scenario gets what it asks for, unless its delay is no duration. -/
theorem fire_granted
    (parseDuration : String → Except String Nat)
    (a : Applied)
    (e : Event)
    (scenario : Scenario) :
    Extends a (a.fire parseDuration e scenario) ∧
      ((a.fire parseDuration e scenario).error.isSome = true ∨
        Granted scenario.action
          (a.fire parseDuration e scenario).disposition) := by
  -- The record changes the trace only.
  have acted :
      Extends a
        ({ a with trace := a.trace ++ [Record.fault e scenario] }.act
          scenario.action) :=
    ⟨(act_extends _ _).suppress, (act_extends _ _).disconnect⟩
  unfold fire
  cases scenario.action.delay with
  | none =>
      exact ⟨acted, Or.inr (act_granted _ _)⟩
  | some delay =>
      cases parsed : parseDuration delay.duration with
      | ok _ =>
          simp only [parsed]
          exact ⟨acted, Or.inr (act_granted _ _)⟩
      | error message =>
          simp only [parsed]
          exact ⟨⟨fun set => set, fun set => set⟩, Or.inl rfl⟩

end Applied

/-- What `apply` did to one matcher and what this one asked for. -/
structure Shown
    (names : List String)
    (a : Applied)
    (m n : Matcher) : Prop where
  follows : Follows m n
  fires :
    m.fired = false →
    n.fired = true →
    m.scenario.when.event ∈ names ∧
      (a.error.isSome = true ∨
        Granted m.scenario.action a.disposition)

theorem Shown.refl
    (names : List String)
    (a : Applied)
    (m : Matcher) :
    Shown names a m m where
  follows := Follows.refl m
  fires := by
    intro unmarked marked
    rw [unmarked] at marked
    cases marked

/-- The matchers of one `apply`, and the decisions it keeps. -/
structure ShownAll
    (names : List String)
    (before after : List Matcher)
    (a b : Applied) : Prop where
  matchers : List.Forall₂ (Shown names b) before after
  extends_ : Applied.Extends a b
  silent :
    (∀ m ∈ after, m.fired = false) →
      b.disposition = a.disposition ∧ b.truncate = a.truncate ∧
        b.sockets = a.sockets ∧ b.error = a.error

theorem shownAll_of_error
    (names : List String)
    (matchers : List Matcher)
    (a : Applied) :
    ShownAll names matchers matchers a a where
  matchers := List.forall₂_same.mpr fun m _ => Shown.refl names a m
  extends_ := Applied.Extends.refl a
  silent := fun _ => ⟨rfl, rfl, rfl, rfl⟩

/-- Two rounds over one matcher, the first without an error. -/
theorem Shown.trans
    {names : List String}
    {a b : Applied}
    {m n o : Matcher}
    (first : Shown names a m n)
    (noError : a.error.isSome = false)
    (extends_ : Applied.Extends a b)
    (second : Shown names b n o) :
    Shown names b m o where
  follows := first.follows.trans second.follows
  fires := by
    intro unmarked marked
    cases middle : n.fired with
    | true =>
        obtain ⟨named, outcome⟩ := first.fires unmarked middle
        refine ⟨named, Or.inr ?_⟩
        rcases outcome with failed | granted
        · rw [noError] at failed
          cases failed
        · exact extends_.granted granted
    | false =>
        rw [← first.follows.scenario]
        exact second.fires middle marked

theorem forall₂_shown_trans
    {names : List String}
    {a b : Applied}
    (noError : a.error.isSome = false)
    (extends_ : Applied.Extends a b)
    {before middle after : List Matcher}
    (first : List.Forall₂ (Shown names a) before middle)
    (second : List.Forall₂ (Shown names b) middle after) :
    List.Forall₂ (Shown names b) before after := by
  induction first generalizing after with
  | nil =>
      cases second
      exact List.Forall₂.nil
  | cons head _ inductionHypothesis =>
      cases second with
      | cons headAfter restAfter =>
          exact List.Forall₂.cons
            (head.trans noError extends_ headAfter)
            (inductionHypothesis restAfter)

/-- One event shown to one matcher. -/
theorem shown_observe
    (parseDuration : String → Except String Nat)
    (names : List String)
    (m : Matcher)
    (e : Event)
    (named : e.event ∈ names)
    (a : Applied) :
    let next :=
      if (m.observe e).1 then a.fire parseDuration e m.scenario else a
    Shown names next m (m.observe e).2 ∧ Applied.Extends a next ∧
      ((m.observe e).2.fired = false → next = a) := by
  intro next
  cases fires : (m.observe e).1 with
  | true =>
      have isFired : next = a.fire parseDuration e m.scenario :=
        if_pos fires
      obtain ⟨-, sameName, marked⟩ := Matcher.observe_fires fires
      obtain ⟨extends_, granted⟩ :=
        Applied.fire_granted parseDuration a e m.scenario
      rw [isFired]
      refine ⟨⟨follows_observe m e, ?_⟩, extends_, ?_⟩
      · intro _ _
        exact ⟨sameName ▸ named, granted⟩
      · intro unmarked
        rw [marked] at unmarked
        cases unmarked
  | false =>
      have unchanged : next = a := if_neg (by simp [fires])
      rw [unchanged]
      refine ⟨⟨follows_observe m e, ?_⟩, Applied.Extends.refl a,
        fun _ => rfl⟩
      intro unmarked marked
      rw [Matcher.observe_fired_of_not fires, unmarked] at marked
      cases marked

/-- The inner loop of `apply`. -/
theorem applyMatchers_shown
    (parseDuration : String → Except String Nat)
    (names : List String)
    (e : Event)
    (named : e.event ∈ names)
    (matchers : List Matcher)
    (a : Applied) :
    ShownAll names matchers (applyMatchers parseDuration e matchers a).1 a
      (applyMatchers parseDuration e matchers a).2 := by
  induction matchers generalizing a with
  | nil =>
      exact shownAll_of_error names [] a
  | cons m rest inductionHypothesis =>
      obtain ⟨head, headExtends, headSilent⟩ :=
        shown_observe parseDuration names m e named a
      simp only [applyMatchers]
      generalize
        (if (m.observe e).1 then a.fire parseDuration e m.scenario else a) =
          next at head headExtends headSilent ⊢
      by_cases failed : next.error.isSome = true
      · rw [if_pos failed]
        refine ⟨List.Forall₂.cons head
          (List.forall₂_same.mpr fun n _ => Shown.refl names next n),
          headExtends, ?_⟩
        intro unmarked
        rw [headSilent (unmarked _ (by simp))]
        exact ⟨rfl, rfl, rfl, rfl⟩
      · rw [if_neg failed]
        have later := inductionHypothesis next
        have noError : next.error.isSome = false := by simpa using failed
        refine ⟨List.Forall₂.cons ?_ later.matchers,
          headExtends.trans later.extends_, ?_⟩
        · exact head.trans noError later.extends_ (Shown.refl _ _ _)
        · intro unmarked
          have restSilent := later.silent fun n member =>
            unmarked n (by simp [member])
          rw [headSilent (unmarked _ (by simp))] at restSilent ⊢
          exact restSilent

/-- The outer loop of `apply`. -/
theorem applyEvents_shown
    (parseDuration : String → Except String Nat)
    (names : List String)
    (events : List Event)
    (named : ∀ e ∈ events, e.event ∈ names)
    (matchers : List Matcher)
    (a : Applied) :
    ShownAll names matchers (applyEvents parseDuration events matchers a).1 a
      (applyEvents parseDuration events matchers a).2 := by
  induction events generalizing matchers a with
  | nil =>
      exact shownAll_of_error names matchers a
  | cons e rest inductionHypothesis =>
      have first :=
        applyMatchers_shown parseDuration names e (named e (by simp)) matchers
          { a with trace := a.trace ++ [.semantic e] }
      simp only [applyEvents]
      generalize
        applyMatchers parseDuration e matchers
            { a with trace := a.trace ++ [.semantic e] } =
          shown at first ⊢
      by_cases failed : shown.2.error.isSome = true
      · rw [if_pos failed]
        exact ⟨first.matchers, ⟨first.extends_.1, first.extends_.2⟩,
          first.silent⟩
      · rw [if_neg failed]
        have noError : shown.2.error.isSome = false := by simpa using failed
        have later := inductionHypothesis
          (fun x member => named x (by simp [member])) shown.1 shown.2
        refine ⟨?_, ?_, ?_⟩
        · exact forall₂_shown_trans noError later.extends_ first.matchers
            later.matchers
        · exact Applied.Extends.trans
            ⟨first.extends_.suppress, first.extends_.disconnect⟩
            later.extends_
        · intro unmarked
          obtain ⟨disposition, truncate, sockets, error⟩ :=
            later.silent unmarked
          obtain ⟨disposition₀, truncate₀, sockets₀, error₀⟩ :=
            first.silent
              (unfired_of_follows
                (later.matchers.imp fun _ _ one => one.follows) unmarked)
          exact ⟨disposition.trans disposition₀, truncate.trans truncate₀,
            sockets.trans sockets₀, error.trans error₀⟩

namespace Relay

section

variable (sha256 : Bytes → String) (parseDuration : String → Except String Nat)

/-! ## Showing events -/

/-- What `apply` may do to the relay. -/
structure Applies
    (names : List String)
    (r t : Relay)
    (d : Disposition) : Prop where
  state : t.state = r.state
  held : t.held = r.held
  heldSize : t.heldSize = r.heldSize
  toServer : t.toServer = r.toServer
  toClient : t.toClient = r.toClient
  received : t.received = r.received
  follows : List.Forall₂ Follows r.matchers t.matchers
  fires :
    ∀ (i : Nat) (m n : Matcher),
      r.matchers[i]? = some m →
      t.matchers[i]? = some n →
      m.fired = false →
      n.fired = true →
      m.scenario.when.event ∈ names ∧
        (t.exit.isSome = true ∨ Granted m.scenario.action d)
  silent :
    (∀ m ∈ t.matchers, m.fired = false) → d = {} ∧ t.exit = none

theorem apply_applies
    (r : Relay)
    (names : List String)
    (events : List Event)
    (named : ∀ e ∈ events, e.event ∈ names) :
    Applies names r (r.apply parseDuration events).1
      (r.apply parseDuration events).2 := by
  have shown :=
    applyEvents_shown parseDuration names events named r.matchers r.borrow
  refine ⟨rfl, rfl, rfl, rfl, rfl, rfl, ?_, ?_, ?_⟩
  · exact shown.matchers.imp fun _ _ one => one.follows
  · intro i m n before after unmarked marked
    have one := related_of_forall₂ shown.matchers before after
    obtain ⟨isNamed, outcome⟩ := one.fires unmarked marked
    refine ⟨isNamed, ?_⟩
    rcases outcome with failed | granted
    · left
      simpa [apply] using failed
    · exact Or.inr granted
  · intro unmarked
    obtain ⟨disposition, -, -, error⟩ := shown.silent unmarked
    refine ⟨disposition, ?_⟩
    simp only [apply, error]
    rfl

/-! ## Client frames -/

/-- The observer once a client frame has been written to the server. -/
def sentState (s : ConnectionState) (f : Frame) : ConnectionState :=
  if f.frontendTag = .query ∨ f.frontendTag = .execute then s.forwarded.2
  else s

/-- What a client frame may do to the relay. -/
structure ClientTurn (r : Relay) (f : Frame) (t : Relay) : Prop where
  moves :
    (t.toServer = r.toServer ∧ t.state = (r.state.frontend sha256 f).2) ∨
      (t.toServer = r.toServer ++ [f] ∧
        t.state = sentState (r.state.frontend sha256 f).2 f)
  held : t.held = r.held
  heldSize : t.heldSize = r.heldSize
  toClient : t.toClient = r.toClient
  received : t.received = r.received
  follows : List.Forall₂ Follows r.matchers t.matchers
  silent :
    (∀ m ∈ t.matchers, m.fired = false) → t.toServer = r.toServer ++ [f]

theorem ClientTurn.state
    {r t : Relay}
    {f : Frame}
    (turn : ClientTurn sha256 r f t) :
    ∃ counters, t.state = (r.state.accept sha256 f).recount counters := by
  rcases turn.moves with ⟨-, state⟩ | ⟨-, state⟩
  · exact ⟨_, state.trans (frontend_state sha256 r.state f)⟩
  · rw [state, sentState, frontend_state]
    split
    · exact forwarded_recount _ _
    · exact ⟨_, rfl⟩

theorem ClientTurn.toServer
    {r t : Relay}
    {f : Frame}
    (turn : ClientTurn sha256 r f t) :
    t.toServer = r.toServer ∨ t.toServer = r.toServer ++ [f] := by
  rcases turn.moves with ⟨stopped, -⟩ | ⟨sent, -⟩
  · exact Or.inl stopped
  · exact Or.inr sent

/-- Leaving the loop changes nothing else. -/
theorem ClientTurn.finish
    {r t : Relay}
    {f : Frame}
    (turn : ClientTurn sha256 r f t) :
    ClientTurn sha256 r f t.finish :=
  ⟨turn.moves, turn.held, turn.heldSize, turn.toClient, turn.received,
    turn.follows, turn.silent⟩

/-- Forwarding an observed client frame. -/
theorem forward_turn
    {r t : Relay}
    {f : Frame}
    (state : t.state = (r.state.frontend sha256 f).2)
    (held : t.held = r.held)
    (heldSize : t.heldSize = r.heldSize)
    (toClient : t.toClient = r.toClient)
    (received : t.received = r.received)
    (toServer : t.toServer = r.toServer)
    (follows : List.Forall₂ Follows r.matchers t.matchers) :
    ClientTurn sha256 r f (t.forward parseDuration f) := by
  have sent : t.toServer ++ [f] = r.toServer ++ [f] := by rw [toServer]
  unfold forward
  by_cases statement : f.frontendTag = .query ∨ f.frontendTag = .execute
  · simp only [if_pos statement]
    have applied :=
      apply_applies parseDuration
        { t with
          toServer := t.toServer ++ [f]
          state := t.state.forwarded.2 }
        ["query.forwarded"] [t.state.forwarded.1]
        (by
          intro e member
          rw [List.mem_singleton.mp member]
          exact List.mem_singleton.mpr rfl)
    have turn :
        ClientTurn sha256 r f
          (apply parseDuration
            { t with
              toServer := t.toServer ++ [f]
              state := t.state.forwarded.2 } [t.state.forwarded.1]).1 := by
      refine ⟨Or.inr ⟨sent, ?_⟩, held, heldSize, toClient, received, ?_,
        fun _ => sent⟩
      · rw [applied.state, state, sentState, if_pos statement]
      · exact forall₂_trans Follows (fun _ _ _ => Follows.trans) follows
          applied.follows
    split
    · exact turn.finish
    · exact turn
  · simp only [if_neg statement]
    refine ⟨Or.inr ⟨sent, ?_⟩, held, heldSize, toClient, received, follows,
      fun _ => sent⟩
    rw [sentState, if_neg statement]
    exact state

/-- The client branch of the loop. -/
theorem clientFrame_turn
    (r : Relay)
    (f : Frame) :
    ClientTurn sha256 r f (r.clientFrame sha256 parseDuration f) := by
  have applied :=
    apply_applies parseDuration
      { r with state := (r.state.frontend sha256 f).2 }
      (r.state.receive sha256 f).2 (r.state.frontend sha256 f).1
      (fun e member => (mem_frontend member).1)
  unfold clientFrame
  simp only
  generalize
    apply parseDuration { r with state := (r.state.frontend sha256 f).2 }
        (r.state.frontend sha256 f).1 = shown at applied ⊢
  have state : shown.1.state = (r.state.frontend sha256 f).2 := applied.state
  -- Without a fault `apply` neither fails nor stops the frame.
  have kept
      (stopped :
        shown.1.exit.isSome = true ∨ shown.2.disconnect = true ∨
          shown.2.suppress = true) :
      ClientTurn sha256 r f shown.1 := by
    refine ⟨Or.inl ⟨applied.toServer, state⟩, applied.held, applied.heldSize,
      applied.toClient, applied.received, applied.follows, ?_⟩
    intro unmarked
    obtain ⟨disposition, running⟩ := applied.silent unmarked
    simp [disposition, running] at stopped
  by_cases failed : shown.1.exit.isSome = true
  · rw [if_pos failed]
    exact kept (Or.inl failed)
  · rw [if_neg failed]
    by_cases disconnects : shown.2.disconnect = true
    · rw [if_pos disconnects]
      exact (kept (Or.inr (Or.inl disconnects))).finish
    · rw [if_neg disconnects]
      have sent :
          ClientTurn sha256 r f
            (if shown.2.suppress then shown.1
            else shown.1.forward parseDuration f) := by
        by_cases suppresses : shown.2.suppress = true
        · rw [if_pos suppresses]
          exact kept (Or.inr (Or.inr suppresses))
        · rw [if_neg suppresses]
          exact forward_turn sha256 parseDuration state applied.held
            applied.heldSize applied.toClient applied.received
            applied.toServer applied.follows
      generalize
        (if shown.2.suppress then shown.1
          else shown.1.forward parseDuration f) = t at sent ⊢
      split
      · exact sent.finish
      · exact sent

/-! ## Server frames -/

/-- Where a server frame went. -/
inductive Delivers
    (r : Relay)
    (gate suppress : Bool)
    (d : Delivery)
    (t : Relay) : Prop where
  | left
      (exited : t.exit.isSome = true)
      (held : t.held = r.held)
      (toClient : t.toClient = r.toClient)
  | settled
      (ready : d.frame.backendTag = .readyForQuery)
      (held : t.held = [])
      (heldSize : t.heldSize = 0)
      (toClient :
        t.toClient =
          if suppress then r.toClient else r.toClient ++ r.held ++ [d])
  | dropped
      (other : d.frame.backendTag ≠ .readyForQuery)
      (suppressed : suppress = true)
      (held : t.held = r.held)
      (heldSize : t.heldSize = r.heldSize)
      (toClient : t.toClient = r.toClient)
  | held
      (other : d.frame.backendTag ≠ .readyForQuery)
      (unsuppressed : suppress = false)
      (held : t.held = r.held ++ [d])
      (heldSize : t.heldSize = r.heldSize + d.frame.raw.length)
      (bound : t.heldSize ≤ gateLimit)
      (toClient : t.toClient = r.toClient)
  | written
      (other : d.frame.backendTag ≠ .readyForQuery)
      (unsuppressed : suppress = false)
      (ungated : gate = false)
      (wasEmpty : r.held = [])
      (held : t.held = [])
      (heldSize : t.heldSize = r.heldSize)
      (toClient : t.toClient = r.toClient ++ [d])

/-- What a server frame may do to the relay. -/
structure ServerTurn (r : Relay) (f : Frame) (t : Relay) : Prop where
  observed : t.state = (r.state.backend f).2
  toServer : t.toServer = r.toServer
  received : t.received = r.received + 1
  follows : List.Forall₂ Follows r.matchers t.matchers
  fires :
    ∀ (i : Nat) (m n : Matcher),
      r.matchers[i]? = some m →
      t.matchers[i]? = some n →
      m.fired = false →
      n.fired = true →
      m.scenario.when.event ∈ r.state.backendNames f ∧
        (t.toClient = r.toClient ∧ t.exit.isSome = true ∨
          Granted m.scenario.action (r.observeServer parseDuration f).2)
  disconnected :
    (r.observeServer parseDuration f).2.disconnect = true →
    t.toClient = r.toClient ∧ t.exit.isSome = true
  silent :
    (∀ m ∈ t.matchers, m.fired = false) →
    (r.observeServer parseDuration f).2 = {}
  delivers :
    Delivers r (r.gate f) (r.observeServer parseDuration f).2.suppress
      ⟨r.received, f⟩ t

theorem ServerTurn.state
    {r t : Relay}
    {f : Frame}
    (turn : ServerTurn parseDuration r f t) :
    ∃ counters, t.state = (r.state.advance f).recount counters :=
  ⟨_, turn.observed.trans (backend_state r.state f)⟩

/-- Cutting a result off moves no frame. -/
theorem Delivers.cut
    {r t : Relay}
    {gate suppress : Bool}
    {d : Delivery}
    (delivers : Delivers r gate suppress d t) :
    Delivers r gate suppress d t.cut := by
  cases delivers with
  | left exited held toClient =>
      exact .left rfl held toClient
  | settled ready held heldSize toClient =>
      exact .settled ready held heldSize toClient
  | dropped other suppressed held heldSize toClient =>
      exact .dropped other suppressed held heldSize toClient
  | held other unsuppressed held heldSize bound toClient =>
      exact .held other unsuppressed held heldSize bound toClient
  | written other unsuppressed ungated wasEmpty held heldSize toClient =>
      exact .written other unsuppressed ungated wasEmpty held heldSize
        toClient

/-- `deliver` takes one of the routes. -/
theorem deliver_delivers
    {r t : Relay}
    (held : t.held = r.held)
    (heldSize : t.heldSize = r.heldSize)
    (toClient : t.toClient = r.toClient)
    (gate suppress : Bool)
    (d : Delivery) :
    Delivers r gate suppress d (t.deliver gate suppress d) := by
  unfold deliver
  by_cases ready : d.frame.backendTag = .readyForQuery
  · rw [if_pos ready]
    exact .settled ready rfl rfl (by simp [settle, held, toClient])
  · rw [if_neg ready]
    cases suppress with
    | true =>
        exact .dropped ready rfl held heldSize toClient
    | false =>
        simp only [Bool.false_eq_true, ↓reduceIte]
        by_cases holds : gate = true ∨ t.held ≠ []
        · rw [if_pos holds]
          unfold hold
          by_cases exceeds : gateLimit < t.heldSize + d.frame.raw.length
          · rw [if_pos exceeds]
            exact .left rfl held toClient
          · rw [if_neg exceeds]
            refine .held ready rfl ?_ ?_ (Nat.le_of_not_lt exceeds) toClient
            · simp [held]
            · simp [heldSize]
        · rw [if_neg holds]
          have clear : gate = false ∧ t.held = [] := by
            simpa using holds
          refine .written ready rfl clear.1 ?_ ?_ heldSize ?_
          · rw [← held]
            exact clear.2
          · exact clear.2
          · simp [toClient]

/-- `deliver` moves frames and nothing else. -/
theorem deliver_keeps
    (r : Relay)
    (gate suppress : Bool)
    (d : Delivery) :
    (r.deliver gate suppress d).state = r.state ∧
      (r.deliver gate suppress d).toServer = r.toServer ∧
      (r.deliver gate suppress d).received = r.received ∧
      (r.deliver gate suppress d).matchers = r.matchers := by
  unfold deliver settle hold
  repeat' split
  all_goals exact ⟨rfl, rfl, rfl, rfl⟩

/-- What observing a server frame does to the relay. -/
theorem observeServer_applies
    (r : Relay)
    (f : Frame) :
    Applies (r.state.backendNames f)
      { r with
        state := (r.state.backend f).2
        received := r.received + 1 }
      (r.observeServer parseDuration f).1
      (r.observeServer parseDuration f).2 :=
  apply_applies parseDuration _ _ _ fun _ member => (mem_backend member).1

/-- The server branch of the loop. -/
theorem serverFrame_turn
    (r : Relay)
    (f : Frame) :
    ServerTurn parseDuration r f (r.serverFrame parseDuration f) := by
  have applied := observeServer_applies parseDuration r f
  have observed :
      (r.observeServer parseDuration f).1.state = (r.state.backend f).2 :=
    applied.state
  -- The parts that do not depend on where the frame goes.
  have turn
      {t : Relay}
      (state : t.state = (r.observeServer parseDuration f).1.state)
      (toServer : t.toServer = r.toServer)
      (received : t.received = r.received + 1)
      (matchers : t.matchers = (r.observeServer parseDuration f).1.matchers)
      (stops :
        (r.observeServer parseDuration f).1.exit.isSome = true ∨
            (r.observeServer parseDuration f).2.disconnect = true →
          t.toClient = r.toClient ∧ t.exit.isSome = true)
      (delivers :
        Delivers r (r.gate f) (r.observeServer parseDuration f).2.suppress
          ⟨r.received, f⟩ t) :
      ServerTurn parseDuration r f t := by
    refine ⟨state.trans observed, toServer, received, ?_, ?_, ?_, ?_,
      delivers⟩
    · rw [matchers]
      exact applied.follows
    · intro i m n before after unmarked marked
      rw [matchers] at after
      obtain ⟨named, outcome⟩ :=
        applied.fires i m n before after unmarked marked
      refine ⟨named, ?_⟩
      rcases outcome with failed | granted
      · exact Or.inl (stops (Or.inl failed))
      · exact Or.inr granted
    · intro disconnects
      exact stops (Or.inr disconnects)
    · intro unmarked
      rw [matchers] at unmarked
      exact (applied.silent unmarked).1
  unfold serverFrame
  simp only
  by_cases failed : (r.observeServer parseDuration f).1.exit.isSome = true
  · rw [if_pos failed]
    exact turn rfl applied.toServer applied.received rfl
      (fun _ => ⟨applied.toClient, failed⟩)
      (.left failed applied.held applied.toClient)
  · rw [if_neg failed]
    by_cases disconnects :
        (r.observeServer parseDuration f).2.disconnect = true
    · rw [if_pos disconnects]
      exact turn rfl applied.toServer applied.received rfl
        (fun _ => ⟨applied.toClient, rfl⟩)
        (.left rfl applied.held applied.toClient)
    · rw [if_neg disconnects]
      have goesOn (t : Relay) :
          (r.observeServer parseDuration f).1.exit.isSome = true ∨
              (r.observeServer parseDuration f).2.disconnect = true →
            t.toClient = r.toClient ∧ t.exit.isSome = true := by
        intro stopped
        rcases stopped with exited | disconnected
        · exact absurd exited failed
        · exact absurd disconnected disconnects
      split
      · exact turn rfl applied.toServer applied.received rfl (goesOn _)
          (.left rfl applied.held applied.toClient)
      · generalize counts :
            (if f.backendTag = .dataRow then
              { (r.observeServer parseDuration f).1 with
                truncate :=
                  (r.observeServer parseDuration f).1.truncate.map (· - 1) }
            else (r.observeServer parseDuration f).1) = counted
        have same :
            counted.state = (r.observeServer parseDuration f).1.state ∧
              counted.toServer = r.toServer ∧
              counted.received = r.received + 1 ∧
              counted.matchers =
                (r.observeServer parseDuration f).1.matchers ∧
              counted.held = r.held ∧ counted.heldSize = r.heldSize ∧
              counted.toClient = r.toClient := by
          rw [← counts]
          split <;>
            exact ⟨rfl, applied.toServer, applied.received, rfl, applied.held,
              applied.heldSize, applied.toClient⟩
        obtain ⟨state, toServer, received, matchers, held, heldSize,
          toClient⟩ := same
        obtain ⟨state', toServer', received', matchers'⟩ :=
          deliver_keeps counted (r.gate f)
            (r.observeServer parseDuration f).2.suppress ⟨r.received, f⟩
        have delivers :=
          deliver_delivers held heldSize toClient (r.gate f)
            (r.observeServer parseDuration f).2.suppress ⟨r.received, f⟩
        generalize
          counted.deliver (r.gate f)
            (r.observeServer parseDuration f).2.suppress ⟨r.received, f⟩ =
              delivered at *
        split
        · exact turn (state'.trans state) (toServer'.trans toServer)
            (received'.trans received) (matchers'.trans matchers) (goesOn _)
            delivers.cut
        · exact turn (state'.trans state) (toServer'.trans toServer)
            (received'.trans received) (matchers'.trans matchers) (goesOn _)
            delivers

/-! ## Runs of the loop -/

/-- A relay that has left the loop stays as it is. -/
theorem step_of_exit
    {r : Relay}
    (exited : r.exit.isSome = true)
    (input : Input) :
    r.step sha256 parseDuration input = r :=
  if_pos exited

theorem run_of_exit
    {r : Relay}
    (exited : r.exit.isSome = true)
    (inputs : List Input) :
    r.run sha256 parseDuration inputs = r := by
  induction inputs with
  | nil =>
      rfl
  | cons input later inductionHypothesis =>
      unfold run at inductionHypothesis ⊢
      rw [Machine.run_cons, step_of_exit sha256 parseDuration exited]
      exact inductionHypothesis

theorem run_append
    (r : Relay)
    (before after : List Input) :
    r.run sha256 parseDuration (before ++ after) =
      (r.run sha256 parseDuration before).run sha256 parseDuration after :=
  Machine.run_append _ _ before after

/-- A relay in the loop has been in the loop all along. -/
theorem running_of_run
    {r : Relay}
    (inputs : List Input)
    (running : (r.run sha256 parseDuration inputs).exit = none) :
    r.exit = none := by
  by_contra exited
  have gone : r.exit.isSome = true := Option.isSome_iff_ne_none.mpr exited
  rw [run_of_exit sha256 parseDuration gone] at running
  exact exited running

/-- What a turn inside the loop is. -/
theorem step_running
    {r : Relay}
    {input : Input}
    (running : (r.step sha256 parseDuration input).exit = none) :
    (∃ f, input = .client (.frame f) ∧
        ClientTurn sha256 r f (r.step sha256 parseDuration input)) ∨
      ∃ f, input = .server (.frame f) ∧
        ServerTurn parseDuration r f (r.step sha256 parseDuration input) := by
  have before : r.exit = none :=
    running_of_run sha256 parseDuration [input] running
  unfold step at running ⊢
  rw [before] at running ⊢
  match input with
  | .client (.frame f) =>
      exact Or.inl ⟨f, rfl, clientFrame_turn sha256 parseDuration r f⟩
  | .server (.frame f) =>
      exact Or.inr ⟨f, rfl, serverFrame_turn parseDuration r f⟩
  | .client .eof =>
      cases running
  | .client (.error _) =>
      cases running
  | .server .eof =>
      cases running
  | .server (.error _) =>
      cases running

theorem run_concat
    (r : Relay)
    (inputs : List Input)
    (input : Input) :
    r.run sha256 parseDuration (inputs ++ [input]) =
      (r.run sha256 parseDuration inputs).step sha256 parseDuration input :=
  Machine.run_append _ _ inputs [input]

end

end Relay

end Pgfault
