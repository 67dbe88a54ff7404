import Pgfault.EventOrder
import Pgfault.Replay

namespace Pgfault

open ConnectionState

/-!
# Which scenarios fire

`apply` interleaves three things: it records the events, advances the matchers
and carries out actions.  Once the delays are known to be durations, `apply`
cannot fail, and the three come apart: the matchers only look at the events, the
records are decided by what fires, and the actions are those of the fired
scenarios in their order.

`Tells` states this for a turn of the relay and `tells_run` for a whole run: a
relay is a run of the observer whose events are shown to the matchers.
-/

/-- The delay of a scenario, if it has one, is a duration. -/
def Punctual
    (parseDuration : String → Except String Nat)
    (s : Scenario) : Prop :=
  ∀ delay ∈ s.action.delay, ∃ duration, parseDuration delay.duration = .ok duration

/-- The scenarios that fire at an event, in the order of their matchers. -/
def firing (matchers : List Matcher) (e : Event) : List Scenario :=
  (matchers.filter fun m => (m.observe e).1).map Matcher.scenario

/-- The matchers behind some events. -/
def allBehind (matchers : List Matcher) (es : List Event) : List Matcher :=
  matchers.map fun m => m.behind es

/-- The scenarios that fire at some events, one event after the other. -/
def firings : List Matcher → List Event → List Scenario
  | _, [] => []
  | matchers, e :: rest =>
      firing matchers e ++ firings (allBehind matchers [e]) rest

/-- The records of some events and of what fires at them. -/
def reports : List Matcher → List Event → List Record
  | _, [] => []
  | matchers, e :: rest =>
      .semantic e :: (firing matchers e).map (Record.fault e) ++
        reports (allBehind matchers [e]) rest

@[simp] theorem allBehind_nil (matchers : List Matcher) :
    allBehind matchers [] = matchers := by
  simp [allBehind, Matcher.behind]

theorem allBehind_append
    (matchers : List Matcher)
    (es later : List Event) :
    allBehind matchers (es ++ later) =
      allBehind (allBehind matchers es) later := by
  simp [allBehind, Matcher.behind, Function.comp_def]

theorem allBehind_cons
    (matchers : List Matcher)
    (e : Event)
    (rest : List Event) :
    allBehind matchers (e :: rest) =
      allBehind (allBehind matchers [e]) rest :=
  allBehind_append matchers [e] rest

theorem reports_append
    (matchers : List Matcher)
    (es later : List Event) :
    reports matchers (es ++ later) =
      reports matchers es ++ reports (allBehind matchers es) later := by
  induction es generalizing matchers with
  | nil =>
      simp [reports]
  | cons e rest inductionHypothesis =>
      simp only [List.cons_append, reports, inductionHypothesis]
      rw [allBehind_cons matchers e rest, List.append_assoc]

/-- A condition on the scenarios is one on the matchers behind some events. -/
theorem forall_allBehind
    {matchers : List Matcher}
    {holds : Scenario → Prop}
    (given : ∀ m ∈ matchers, holds m.scenario)
    (es : List Event) :
    ∀ m ∈ allBehind matchers es, holds m.scenario := by
  intro m member
  obtain ⟨n, listed, rfl⟩ := List.mem_map.mp member
  rw [Matcher.behind_scenario]
  exact given n listed

/-! ## What `apply` does -/

namespace Applied

/-- The same decisions behind other records. -/
def traced (a : Applied) (trace : List Record) : Applied :=
  { a with trace := trace }

/-- The actions of some scenarios, one after the other. -/
def acts (a : Applied) (fired : List Scenario) : Applied :=
  fired.foldl (fun a s => a.act s.action) a

@[simp] theorem acts_nil (a : Applied) : a.acts [] = a := rfl

@[simp] theorem acts_cons
    (a : Applied)
    (s : Scenario)
    (rest : List Scenario) :
    a.acts (s :: rest) = (a.act s.action).acts rest := rfl

@[simp] theorem traced_traced
    (a : Applied)
    (trace other : List Record) :
    (a.traced trace).traced other = a.traced other := rfl

@[simp] theorem traced_error (a : Applied) (trace : List Record) :
    (a.traced trace).error = a.error := rfl

@[simp] theorem traced_trace (a : Applied) (trace : List Record) :
    (a.traced trace).trace = trace := rfl

@[simp] theorem traced_self (a : Applied) : a.traced a.trace = a := rfl

theorem acts_append
    (a : Applied)
    (fired later : List Scenario) :
    a.acts (fired ++ later) = (a.acts fired).acts later :=
  List.foldl_append

/-- Actions look at no record. -/
@[simp] theorem acts_traced
    (a : Applied)
    (trace : List Record)
    (fired : List Scenario) :
    (a.traced trace).acts fired = (a.acts fired).traced trace := by
  induction fired generalizing a with
  | nil =>
      rfl
  | cons s rest inductionHypothesis =>
      exact inductionHypothesis (a.act s.action)

/-- Actions neither fail nor record anything. -/
@[simp] theorem acts_error
    (a : Applied)
    (fired : List Scenario) :
    (a.acts fired).error = a.error := by
  induction fired generalizing a with
  | nil =>
      rfl
  | cons s rest inductionHypothesis =>
      exact inductionHypothesis (a.act s.action)

/-- A scenario whose delay is a duration is recorded and acted on. -/
theorem fire_of_punctual
    {parseDuration : String → Except String Nat}
    {s : Scenario}
    (punctual : Punctual parseDuration s)
    (a : Applied)
    (e : Event) :
    a.fire parseDuration e s =
      (a.act s.action).traced (a.trace ++ [.fault e s]) := by
  unfold fire
  cases delayed : s.action.delay with
  | none =>
      rfl
  | some delay =>
      obtain ⟨duration, parses⟩ := punctual delay delayed
      simp only [parses]
      rfl

end Applied

section

variable {parseDuration : String → Except String Nat}

/-- One event, shown to matchers whose delays are durations. -/
theorem applyMatchers_eq
    {matchers : List Matcher}
    (punctual : ∀ m ∈ matchers, Punctual parseDuration m.scenario)
    {a : Applied}
    (noError : a.error = none)
    (e : Event) :
    applyMatchers parseDuration e matchers a =
      (allBehind matchers [e],
        (a.acts (firing matchers e)).traced
          (a.trace ++ (firing matchers e).map (.fault e))) := by
  induction matchers generalizing a with
  | nil =>
      simp [applyMatchers, allBehind, firing]
  | cons m rest inductionHypothesis =>
      have restPunctual : ∀ n ∈ rest, Punctual parseDuration n.scenario :=
        fun n member => punctual n (List.mem_cons_of_mem m member)
      have shown : allBehind (m :: rest) [e] =
          (m.observe e).2 :: allBehind rest [e] := rfl
      rw [applyMatchers, shown]
      cases fires : (m.observe e).1 with
      | false =>
          have same : firing (m :: rest) e = firing rest e := by
            simp [firing, fires]
          simp only [Bool.false_eq_true, if_false, noError, Option.isSome_none]
          rw [inductionHypothesis restPunctual noError, same]
      | true =>
          have first : firing (m :: rest) e = m.scenario :: firing rest e := by
            simp [firing, fires]
          have acted :=
            Applied.fire_of_punctual (punctual m List.mem_cons_self) a e
          have unfailed : (a.act m.scenario.action).error = none := noError
          simp only [if_true, acted, Applied.traced_error, unfailed,
            Option.isSome_none, Bool.false_eq_true, if_false]
          rw [inductionHypothesis restPunctual (by simpa using unfailed), first]
          simp

/-- Some events, shown to matchers whose delays are durations. -/
theorem applyEvents_eq
    (events : List Event)
    {matchers : List Matcher}
    (punctual : ∀ m ∈ matchers, Punctual parseDuration m.scenario)
    {a : Applied}
    (noError : a.error = none) :
    applyEvents parseDuration events matchers a =
      (allBehind matchers events,
        (a.acts (firings matchers events)).traced
          (a.trace ++ reports matchers events)) := by
  induction events generalizing matchers a with
  | nil =>
      simp [applyEvents, firings, reports]
  | cons e rest inductionHypothesis =>
      have shown :=
        applyMatchers_eq punctual (a := a.traced (a.trace ++ [.semantic e]))
          noError e
      have unfailed : (a.acts (firing matchers e)).error = none := by
        rw [Applied.acts_error]
        exact noError
      have traced : ({ a with trace := a.trace ++ [.semantic e] } : Applied) =
          a.traced (a.trace ++ [.semantic e]) := rfl
      rw [applyEvents, traced, shown]
      simp only [Applied.acts_traced, Applied.traced_traced,
        Applied.traced_error, unfailed, Option.isSome_none, Bool.false_eq_true,
        if_false]
      rw [inductionHypothesis (forall_allBehind punctual [e])
        (by simpa using noError), ← allBehind_cons]
      simp [firings, reports, Applied.acts_append]

end

namespace ConnectionState

/-- The events some calls raise. -/
def raisedBy (sha256 : Bytes → String) (s : ConnectionState) :
    List Call → List Event
  | [] => []
  | call :: rest =>
      (History.called sha256 s call).1 ++
        raisedBy sha256 (History.called sha256 s call).2 rest

theorem raisedBy_append
    (sha256 : Bytes → String)
    (s : ConnectionState)
    (calls later : List Call) :
    s.raisedBy sha256 (calls ++ later) =
      s.raisedBy sha256 calls ++
        (s.observe sha256 calls).raisedBy sha256 later := by
  induction calls generalizing s with
  | nil =>
      rfl
  | cons call rest inductionHypothesis =>
      simp only [List.cons_append, raisedBy, inductionHypothesis,
        List.append_assoc]
      rfl

/-- Moving the counters keeps the parameters of the connection. -/
theorem Keeps.recount
    {s t : ConnectionState}
    (keeps : Keeps s t)
    (counters : String → Nat) :
    Keeps s (t.recount counters) :=
  ⟨keeps.id, keeps.user, keeps.database, keeps.applicationName⟩

/-- A call keeps the number and the parameters of the connection. -/
theorem called_keeps
    (sha256 : Bytes → String)
    (s : ConnectionState)
    (call : Call) :
    Keeps s (History.called sha256 s call).2 := by
  cases call with
  | frontend f =>
      obtain ⟨id, startup⟩ := accept_identity sha256 s f
      rw [History.called, frontend_state]
      exact (Keeps.of_same id startup).recount _
  | forwarded =>
      exact Keeps.of_same rfl rfl
  | backend f =>
      rw [History.called, backend_state]
      exact (advance_keeps s f).recount _

@[simp] theorem observe_id
    (sha256 : Bytes → String)
    (s : ConnectionState)
    (calls : List Call) :
    (s.observe sha256 calls).id = s.id :=
  Machine.run_induction (motive := fun _ (t : ConnectionState) => t.id = s.id)
    rfl
    (fun _ call same => (called_keeps sha256 _ call).id.trans same) calls

end ConnectionState

/-! ## What a turn tells -/

namespace Relay

section

variable (sha256 : Bytes → String) {parseDuration : String → Except String Nat}

/-- `apply` on matchers whose delays are durations. -/
theorem apply_eq
    {r : Relay}
    (punctual : ∀ m ∈ r.matchers, Punctual parseDuration m.scenario)
    (events : List Event) :
    r.apply parseDuration events =
      ({ r with
          matchers := allBehind r.matchers events
          truncate := (r.borrow.acts (firings r.matchers events)).truncate
          trace := r.trace ++ reports r.matchers events
          sockets := (r.borrow.acts (firings r.matchers events)).sockets
          exit := none },
        (r.borrow.acts (firings r.matchers events)).disposition) := by
  unfold apply
  rw [applyEvents_eq events punctual (a := r.borrow) rfl]
  have noError :
      (r.borrow.acts (firings r.matchers events)).error = none := by
    rw [Applied.acts_error]
    rfl
  simp only [Applied.traced, noError]
  rfl

/--
What a relay tells between two points: the calls of the observer, whose events
the matchers see, and some records behind those of the events.
-/
structure Tells
    (r : Relay)
    (calls : List Call)
    (ending : List Record)
    (t : Relay) : Prop where
  state : t.state = r.state.observe sha256 calls
  matchers : t.matchers = allBehind r.matchers (r.state.raisedBy sha256 calls)
  trace :
    t.trace =
      r.trace ++ reports r.matchers (r.state.raisedBy sha256 calls) ++ ending

theorem Tells.refl (r : Relay) : Tells sha256 r [] [] r where
  state := rfl
  matchers := (allBehind_nil _).symm
  trace := by simp [raisedBy, reports]

variable {sha256}

theorem Tells.trans
    {r t u : Relay}
    {calls later : List Call}
    {ending : List Record}
    (first : Tells sha256 r calls [] t)
    (second : Tells sha256 t later ending u) :
    Tells sha256 r (calls ++ later) ending u where
  state := by
    rw [second.state, first.state]
    exact (Machine.run_append _ _ calls later).symm
  matchers := by
    rw [second.matchers, first.matchers, first.state, raisedBy_append,
      allBehind_append]
  trace := by
    rw [second.trace, first.trace, first.matchers, first.state,
      raisedBy_append, reports_append]
    simp

/-- Only the observer, the matchers and the trace play a part. -/
theorem Tells.of_same
    {r t u : Relay}
    {calls : List Call}
    {ending : List Record}
    (tells : Tells sha256 r calls ending t)
    (state : u.state = t.state)
    (matchers : u.matchers = t.matchers)
    (trace : u.trace = t.trace) :
    Tells sha256 r calls ending u :=
  ⟨state.trans tells.state, matchers.trans tells.matchers,
    trace.trans tells.trace⟩

variable (sha256)

/-- One call and the `apply` behind it. -/
theorem tells_apply
    {r t : Relay}
    (call : Call)
    (punctual : ∀ m ∈ r.matchers, Punctual parseDuration m.scenario)
    (state : t.state = (History.called sha256 r.state call).2)
    (matchers : t.matchers = r.matchers)
    (trace : t.trace = r.trace) :
    Tells sha256 r [call] []
      (t.apply parseDuration (History.called sha256 r.state call).1).1 := by
  rw [apply_eq (by rw [matchers]; exact punctual)]
  refine ⟨state, ?_, ?_⟩
  · simp [matchers, raisedBy]
  · simp [matchers, trace, raisedBy]

theorem forward_tells
    {r : Relay}
    (punctual : ∀ m ∈ r.matchers, Punctual parseDuration m.scenario)
    (f : Frame) :
    ∃ calls, (calls = [] ∨ calls = [.forwarded]) ∧
      Tells sha256 r calls [] (r.forward parseDuration f) := by
  unfold forward
  simp only
  split
  · have told :=
      tells_apply sha256 (r := r)
        (t :=
          { r with
            toServer := r.toServer ++ [f]
            state := r.state.forwarded.2 })
        .forwarded punctual rfl rfl rfl
    refine ⟨[.forwarded], Or.inr rfl, ?_⟩
    split
    · exact told.of_same rfl rfl rfl
    · exact told
  · exact ⟨[], Or.inl rfl, (Tells.refl sha256 r).of_same rfl rfl rfl⟩

variable {sha256} in
/-- The matchers keep their scenarios while a relay tells. -/
theorem Tells.punctual
    {r t : Relay}
    {calls : List Call}
    {ending : List Record}
    (tells : Tells sha256 r calls ending t)
    (punctual : ∀ m ∈ r.matchers, Punctual parseDuration m.scenario) :
    ∀ m ∈ t.matchers, Punctual parseDuration m.scenario := by
  rw [tells.matchers]
  exact forall_allBehind punctual _

theorem clientFrame_tells
    {r : Relay}
    (punctual : ∀ m ∈ r.matchers, Punctual parseDuration m.scenario)
    (f : Frame) :
    ∃ calls,
      (calls = [.frontend f] ∨ calls = [.frontend f, .forwarded]) ∧
        Tells sha256 r calls [] (r.clientFrame sha256 parseDuration f) := by
  have observed :=
    tells_apply sha256 (r := r)
      (t := { r with state := (r.state.frontend sha256 f).2 })
      (.frontend f) punctual rfl rfl rfl
  unfold clientFrame
  simp only
  rw [show (History.called sha256 r.state (.frontend f)).1 =
    (r.state.frontend sha256 f).1 from rfl] at observed
  generalize
    apply parseDuration { r with state := (r.state.frontend sha256 f).2 }
        (r.state.frontend sha256 f).1 = shown at observed ⊢
  have kept {t : Relay}
      (same :
        t.state = shown.1.state ∧ t.matchers = shown.1.matchers ∧
          t.trace = shown.1.trace) :
      ∃ calls,
        (calls = [Call.frontend f] ∨ calls = [.frontend f, .forwarded]) ∧
          Tells sha256 r calls [] t :=
    ⟨[.frontend f], Or.inl rfl, observed.of_same same.1 same.2.1 same.2.2⟩
  split
  · exact kept ⟨rfl, rfl, rfl⟩
  · split
    · exact kept ⟨rfl, rfl, rfl⟩
    · by_cases suppress : shown.2.suppress = true
      · simp only [suppress, if_true]
        split
        · exact kept ⟨rfl, rfl, rfl⟩
        · exact kept ⟨rfl, rfl, rfl⟩
      · simp only [suppress, Bool.false_eq_true, if_false]
        obtain ⟨calls, shape, sent⟩ :=
          forward_tells sha256 (observed.punctual punctual) f
        have told := observed.trans sent
        generalize shown.1.forward parseDuration f = last at told ⊢
        refine ⟨[.frontend f] ++ calls, ?_, ?_⟩
        · rcases shape with rfl | rfl
          · exact Or.inl rfl
          · exact Or.inr rfl
        · split
          · exact told.of_same rfl rfl rfl
          · exact told

/-- The record of a cut result. -/
def cutRecord (id : Nat) : Record :=
  .lifecycle id "result.truncated" ""

/-- How a turn may end: without a record of its own, or with a cut. -/
def Ends (id : Nat) (ending : List Record) (t : Relay) : Prop :=
  ending = [] ∨ ending = [cutRecord id] ∧ t.exit = some .ok

variable {sha256} in
theorem Tells.cut
    {r t : Relay}
    {calls : List Call}
    (tells : Tells sha256 r calls [] t) :
    Tells sha256 r calls [cutRecord r.state.id] t.cut where
  state := tells.state
  matchers := tells.matchers
  trace := by
    have same : t.state.id = r.state.id := by
      rw [tells.state, observe_id]
    have recorded :
        t.cut.trace = t.trace ++ [cutRecord t.state.id] := rfl
    rw [recorded, tells.trace, same, List.append_nil]

theorem deliver_trace
    (r : Relay)
    (gate suppress : Bool)
    (d : Delivery) :
    (r.deliver gate suppress d).trace = r.trace := by
  unfold deliver settle hold
  repeat' split
  all_goals rfl

theorem serverFrame_tells
    {r : Relay}
    (punctual : ∀ m ∈ r.matchers, Punctual parseDuration m.scenario)
    (f : Frame) :
    ∃ ending,
      Ends r.state.id ending (r.serverFrame parseDuration f) ∧
        Tells sha256 r [.backend f] ending
          (r.serverFrame parseDuration f) := by
  have observed : Tells sha256 r [.backend f] []
      (r.observeServer parseDuration f).1 :=
    tells_apply sha256 (r := r)
      (t :=
        { r with
          state := (r.state.backend f).2
          received := r.received + 1 })
      (.backend f) punctual rfl rfl rfl
  unfold serverFrame
  simp only
  generalize r.observeServer parseDuration f = shown at observed ⊢
  have counted : Tells sha256 r [.backend f] []
      (if f.backendTag = .dataRow then
        { shown.1 with truncate := shown.1.truncate.map (· - 1) }
      else shown.1) := by
    split
    · exact observed.of_same rfl rfl rfl
    · exact observed
  generalize
    (if f.backendTag = .dataRow then
      { shown.1 with truncate := shown.1.truncate.map (· - 1) }
    else shown.1) = before at counted ⊢
  obtain ⟨state, -, -, matchers⟩ :=
    deliver_keeps before (r.gate f) shown.2.suppress ⟨r.received, f⟩
  have delivered :=
    counted.of_same state matchers
      (deliver_trace before (r.gate f) shown.2.suppress ⟨r.received, f⟩)
  split
  · exact ⟨[], Or.inl rfl, observed⟩
  · split
    · exact ⟨[], Or.inl rfl, observed.of_same rfl rfl rfl⟩
    · split
      · exact ⟨_, Or.inr ⟨rfl, rfl⟩, observed.cut⟩
      · split
        · exact ⟨_, Or.inr ⟨rfl, rfl⟩, delivered.cut⟩
        · exact ⟨[], Or.inl rfl, delivered⟩

/-- One turn of the loop tells the events of its calls. -/
theorem step_tells
    {r : Relay}
    (punctual : ∀ m ∈ r.matchers, Punctual parseDuration m.scenario)
    (input : Input) :
    ∃ calls ending,
      Ends r.state.id ending (r.step sha256 parseDuration input) ∧
        Tells sha256 r calls ending (r.step sha256 parseDuration input) := by
  have silent {t : Relay}
      (same :
        t.state = r.state ∧ t.matchers = r.matchers ∧ t.trace = r.trace) :
      ∃ calls ending,
        Ends r.state.id ending t ∧ Tells sha256 r calls ending t :=
    ⟨[], [], Or.inl rfl,
      (Tells.refl sha256 r).of_same same.1 same.2.1 same.2.2⟩
  unfold step
  split
  · exact silent ⟨rfl, rfl, rfl⟩
  · split
    · obtain ⟨calls, -, told⟩ := clientFrame_tells sha256 punctual _
      exact ⟨calls, [], Or.inl rfl, told⟩
    · exact silent ⟨rfl, rfl, rfl⟩
    · exact silent ⟨rfl, rfl, rfl⟩
    · obtain ⟨ending, ends, told⟩ :=
        serverFrame_tells sha256 punctual _
      exact ⟨_, ending, ends, told⟩
    · exact silent ⟨rfl, rfl, rfl⟩
    · exact silent ⟨rfl, rfl, rfl⟩

/-- A whole run tells the events of its calls. -/
theorem tells_run
    {r : Relay}
    (punctual : ∀ m ∈ r.matchers, Punctual parseDuration m.scenario)
    (inputs : List Input) :
    ∃ calls ending,
      Ends r.state.id ending (r.run sha256 parseDuration inputs) ∧
        Tells sha256 r calls ending
          (r.run sha256 parseDuration inputs) := by
  refine Machine.run_induction
    (motive := fun _ t =>
      ∃ calls ending,
        Ends r.state.id ending t ∧ Tells sha256 r calls ending t)
    ⟨[], [], Or.inl rfl, Tells.refl sha256 r⟩ ?_ inputs
  rintro before input ⟨calls, ending, ends, told⟩
  rcases ends with rfl | ⟨isCut, exited⟩
  · obtain ⟨later, ending, ends, next⟩ :=
      step_tells sha256 (told.punctual punctual) input
    rw [told.state, observe_id] at ends
    exact ⟨calls ++ later, ending, ends, told.trans next⟩
  · have gone := step_of_exit sha256 parseDuration (by rw [exited]; rfl) input
    refine ⟨calls, ending, ?_, ?_⟩
    · exact Or.inr ⟨isCut, by rw [gone]; exact exited⟩
    · rw [gone]
      exact told

end

end Relay

end Pgfault
