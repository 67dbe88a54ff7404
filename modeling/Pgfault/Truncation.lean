import Pgfault.Countdown
import Pgfault.Directions

namespace Pgfault

open Queue ConnectionState

/-!
# Truncated results

A connection with one scenario that cuts a result set.  Such a scenario neither
drops a frame nor closes a gate, so until the fault the relay writes what it
reads, and behind the fault it is a countdown.
-/

/-- A scenario that cuts results after some rows and does nothing else. -/
structure Truncates
    (parseDuration : String → Except String Nat)
    (rows : Nat)
    (s : Scenario) : Prop where
  valid : s.validate parseDuration = .ok ()
  truncates : s.action.truncateResult = some ⟨rows⟩
  delivers : s.action.suppress = none
  connected : s.action.disconnect = none

namespace Truncates

variable {parseDuration : String → Except String Nat} {rows : Nat} {s : Scenario}

/-- `validate` ties the scenario to the start of a result. -/
theorem event_eq
    (scenario : Truncates parseDuration rows s) :
    s.when.event = "result.started" := by
  have target := (Scenario.validate_iff.mp scenario.valid).truncates
  rw [scenario.truncates, not_and, not_not] at target
  exact target rfl

/-- The fault sets the budget and nothing else. -/
theorem fire_eq
    (scenario : Truncates parseDuration rows s)
    (a : Applied)
    (e : Event) :
    a.fire parseDuration e s =
      { a with
        truncate := some rows
        trace := a.trace ++ [Record.fault e s] } := by
  have acts :
      Applied.act { a with trace := a.trace ++ [Record.fault e s] } s.action =
        { a with
          truncate := some rows
          trace := a.trace ++ [Record.fault e s] } := by
    simp [Applied.act, scenario.truncates, scenario.delivers,
      scenario.connected]
  unfold Applied.fire
  cases delays : s.action.delay with
  | none =>
      exact acts
  | some delay =>
      have accepted :=
        (Scenario.validate_iff.mp scenario.valid).delay delay delays
      unfold Scenario.validateDelay at accepted
      cases parsed : parseDuration delay.duration with
      | error message =>
          rw [parsed] at accepted
          cases accepted
      | ok duration =>
          simp only [parsed]
          exact acts

end Truncates

/-- The budget of a matcher's scenario, once the matcher fires. -/
def budgeted (rows : Nat) (m n : Matcher) (budget : Option Nat) : Option Nat :=
  if m.fired = false ∧ n.fired = true then some rows else budget

/-- `apply` with one scenario that cuts results. -/
theorem applyEvents_truncates
    {parseDuration : String → Except String Nat}
    {rows : Nat}
    {m : Matcher}
    (scenario : Truncates parseDuration rows m.scenario)
    (events : List Event)
    {a : Applied}
    (noError : a.error = none) :
    ∃ n trace,
      applyEvents parseDuration events [m] a =
        ([n], { a with
          truncate := budgeted rows m n a.truncate
          trace := trace }) ∧
      Follows m n := by
  induction events generalizing m a with
  | nil =>
      refine ⟨m, a.trace, ?_, Follows.refl m⟩
      cases fired : m.fired <;> simp [applyEvents, budgeted, fired]
  | cons e later inductionHypothesis =>
      obtain ⟨disposition, truncate, records, sockets, error⟩ := a
      simp only at noError
      subst noError
      have follows := follows_observe m e
      have next :
          Truncates parseDuration rows (m.observe e).2.scenario := by
        rw [follows.scenario]
        exact scenario
      cases fires : (m.observe e).1 with
      | true =>
          obtain ⟨unmarked, -, marked⟩ := Matcher.observe_fires fires
          obtain ⟨n, trace, shown, rest⟩ :=
            inductionHypothesis next
              (a := ⟨disposition, some rows,
                records ++ [.semantic e] ++ [Record.fault e m.scenario],
                sockets, none⟩) rfl
          refine ⟨n, trace, ?_, follows.trans rest⟩
          simp only [applyEvents, applyMatchers, fires, if_true,
            scenario.fire_eq, Option.isSome_none, Bool.false_eq_true, if_false]
          rw [shown]
          simp [budgeted, unmarked, marked, rest.fired marked]
      | false =>
          have same := Matcher.observe_fired_of_not fires
          obtain ⟨n, trace, shown, rest⟩ :=
            inductionHypothesis next
              (a := ⟨disposition, truncate, records ++ [.semantic e], sockets,
                none⟩) rfl
          refine ⟨n, trace, ?_, follows.trans rest⟩
          simp only [applyEvents, applyMatchers, fires, Option.isSome_none,
            Bool.false_eq_true, if_false]
          rw [shown]
          simp [budgeted, same]

namespace Relay

section

variable
  {sha256 : Bytes → String}
  {parseDuration : String → Except String Nat}
  {rows : Nat}
  {m : Matcher}
  {r : Relay}

/-- A connection whose only scenario cuts results holds no frame back. -/
structure Sole
    (parseDuration : String → Except String Nat)
    (rows : Nat)
    (m : Matcher)
    (r : Relay) : Prop where
  matchers : r.matchers = [m]
  scenario : Truncates parseDuration rows m.scenario
  held : r.held = []

/-- Showing events to the only scenario sets the budget when it fires. -/
theorem apply_truncates
    (alone : r.matchers = [m])
    (scenario : Truncates parseDuration rows m.scenario)
    (events : List Event) :
    ∃ n trace,
      r.apply parseDuration events =
        ({ r with
            matchers := [n]
            truncate := budgeted rows m n r.truncate
            trace := trace
            exit := none }, {}) ∧
      Follows m n := by
  obtain ⟨n, trace, shown, follows⟩ :=
    applyEvents_truncates scenario events (a := r.borrow) rfl
  refine ⟨n, trace, ?_, follows⟩
  unfold apply
  simp only [alone, shown]
  rfl

/-- Other events leave the only scenario as it is, apart from its counter. -/
theorem apply_unfired
    (alone : r.matchers = [m])
    (scenario : Truncates parseDuration rows m.scenario)
    {events : List Event}
    (other : ∀ e ∈ events, e.event ≠ "result.started") :
    ∃ n trace,
      r.apply parseDuration events =
        ({ r with matchers := [n], trace := trace, exit := none }, {}) ∧
      n.scenario = m.scenario ∧ n.fired = m.fired := by
  obtain ⟨n, trace, shown, follows⟩ :=
    apply_truncates alone scenario events
  have same : n.fired = m.fired := by
    cases unmarked : m.fired with
    | true =>
        exact follows.fired unmarked
    | false =>
        by_contra marked
        rw [Bool.not_eq_false] at marked
        have applied :=
          apply_applies parseDuration r (events.map Event.event) events
            fun e member => List.mem_map_of_mem member
        have named :=
          (applied.fires 0 m n (by simp [alone]) (by simp [shown]) unmarked
            marked).1
        obtain ⟨e, member, isNamed⟩ := List.mem_map.mp named
        exact other e member (isNamed.trans scenario.event_eq)
  refine ⟨n, trace, ?_, follows.scenario, same⟩
  rw [shown, budgeted, same]
  simp

/-- A client frame starts no result. -/
theorem frontend_other
    (sha256 : Bytes → String)
    (s : ConnectionState)
    (f : Frame) :
    ∀ e ∈ (s.frontend sha256 f).1, e.event ≠ "result.started" := by
  intro e member isStart
  have listed := receive_clientNames sha256 s f _ (mem_frontend member).1
  rw [isStart] at listed
  exact absurd listed (by decide)

theorem forwarded_other (s : ConnectionState) :
    ∀ e ∈ [s.forwarded.1], e.event ≠ "result.started" := by
  intro e member isStart
  rw [List.mem_singleton.mp member] at isStart
  change "query.forwarded" = "result.started" at isStart
  exact absurd isStart (by decide)

/-- What a client frame leaves of a connection with the only scenario. -/
structure ClientKept
    (parseDuration : String → Except String Nat)
    (rows : Nat)
    (m : Matcher)
    (r t : Relay) : Prop where
  sole : ∃ n, Sole parseDuration rows n t ∧ n.fired = m.fired
  truncate : t.truncate = r.truncate
  toClient : t.toClient = r.toClient
  sockets : t.sockets = r.sockets

theorem ClientKept.finish
    {t : Relay}
    (kept : ClientKept parseDuration rows m r t) :
    ClientKept parseDuration rows m r t.finish := by
  obtain ⟨⟨n, sole, fired⟩, truncate, toClient, sockets⟩ := kept
  exact ⟨⟨n, ⟨sole.matchers, sole.scenario, sole.held⟩, fired⟩, truncate,
    toClient, sockets⟩

theorem forward_sole
    (sole : Sole parseDuration rows m r)
    (running : r.exit = none)
    (f : Frame) :
    ClientKept parseDuration rows m r (r.forward parseDuration f) ∧
      (r.forward parseDuration f).exit = none := by
  unfold forward
  by_cases statement : f.frontendTag = .query ∨ f.frontendTag = .execute
  · obtain ⟨n, trace, shown, scenario, fired⟩ :=
      apply_unfired (r :=
          { r with
            toServer := r.toServer ++ [f]
            state := r.state.forwarded.2 })
        sole.matchers sole.scenario (forwarded_other r.state)
    simp only [if_pos statement, shown, Bool.false_eq_true, and_false, if_false]
    refine ⟨⟨⟨n, ⟨rfl, ?_, sole.held⟩, fired⟩, rfl, rfl, rfl⟩, trivial⟩
    rw [scenario]
    exact sole.scenario
  · simp only [if_neg statement]
    exact ⟨⟨⟨m, ⟨sole.matchers, sole.scenario, sole.held⟩, rfl⟩, rfl, rfl, rfl⟩,
      running⟩

/-- A client frame leaves the budget and the client alone. -/
theorem clientFrame_sole
    (sha256 : Bytes → String)
    (sole : Sole parseDuration rows m r)
    (f : Frame) :
    ClientKept parseDuration rows m r (r.clientFrame sha256 parseDuration f) ∧
      (r.clientFrame sha256 parseDuration f).exit =
        if f.frontendTag = .terminate then some .ok else none := by
  obtain ⟨n, trace, shown, scenario, fired⟩ :=
    apply_unfired (r := { r with state := (r.state.frontend sha256 f).2 })
      sole.matchers sole.scenario (frontend_other sha256 r.state f)
  unfold clientFrame
  simp only [shown, Option.isSome_none, Bool.false_eq_true, if_false]
  generalize observed :
    ({ r with
      state := (r.state.frontend sha256 f).2
      matchers := [n]
      trace := trace
      exit := none } : Relay) = o
  have next : Sole parseDuration rows n o := by
    subst observed
    refine ⟨rfl, ?_, sole.held⟩
    rw [scenario]
    exact sole.scenario
  obtain ⟨⟨⟨k, later, same⟩, truncate, toClient, sockets⟩, running⟩ :=
    forward_sole next (by rw [← observed]) f
  have kept :
      ClientKept parseDuration rows m r (o.forward parseDuration f) := by
    subst observed
    exact ⟨⟨k, later, same.trans fired⟩, truncate, toClient, sockets⟩
  rw [running]
  by_cases terminates : f.frontendTag = .terminate
  · rw [if_pos ⟨rfl, terminates⟩, if_pos terminates]
    exact ⟨kept.finish, rfl⟩
  · rw [if_neg (fun both => terminates both.2), if_neg terminates]
    exact ⟨kept, running⟩

/-- The gate never closes for a scenario that waits for a result. -/
theorem gate_sole
    (sole : Sole parseDuration rows m r)
    (f : Frame) :
    r.gate f = false := by
  unfold gate
  cases boundary : r.state.completionBoundary f with
  | none =>
      rfl
  | some name =>
      have unlike : name ≠ "result.started" := by
        rintro rfl
        unfold completionBoundary at boundary
        repeat' split at boundary
        all_goals simp at boundary
      simp [sole.matchers, Matcher.needsGate, sole.scenario.event_eq,
        Ne.symm unlike]

/-- What a server frame leads to, once the matchers have seen its events. -/
structure ServerSpent
    (parseDuration : String → Except String Nat)
    (rows : Nat)
    (n : Matcher)
    (spent : Spent)
    (f : Frame)
    (r t : Relay) : Prop where
  sole : Sole parseDuration rows n t
  toClient :
    t.toClient = r.toClient ++ if spent.written then [⟨r.received, f⟩] else []
  sockets :
    t.sockets =
      r.sockets ++ if spent.cut then [(Side.frontend, Mode.reset)] else []
  exit : t.exit = if spent.cut then some .ok else none
  truncate : spent.cut = false → t.truncate = spent.budget

/-- A server frame spends the budget, once a fault has set it. -/
theorem serverFrame_sole
    (sole : Sole parseDuration rows m r)
    (f : Frame) :
    ∃ n, Follows m n ∧
      (m.fired = false → n.fired = true → f.backendTag = .rowDescription) ∧
      ServerSpent parseDuration rows n
        (spend (budgeted rows m n r.truncate) f.backendTag) f r
        (r.serverFrame parseDuration f) := by
  obtain ⟨n, trace, shown, follows⟩ :=
    apply_truncates (r :=
        { r with
          state := (r.state.backend f).2
          received := r.received + 1 })
      sole.matchers sole.scenario (r.state.backend f).1
  have scenario : Truncates parseDuration rows n.scenario := by
    rw [follows.scenario]
    exact sole.scenario
  have started :
      m.fired = false → n.fired = true → f.backendTag = .rowDescription := by
    intro unmarked marked
    have applied := observeServer_applies parseDuration r f
    have raised :=
      (applied.fires 0 m n (by simp [sole.matchers])
        (by simp [observeServer, shown]) unmarked marked).1
    rw [sole.scenario.event_eq] at raised
    unfold backendNames at raised
    cases tag : f.backendTag <;> simp only [tag] at raised
    case rowDescription =>
      rfl
    case readyForQuery =>
      split at raised
      · exact absurd (mem_readyEvents raised) (by decide)
      · simp at raised
    all_goals simp at raised
  refine ⟨n, follows, started, ?_⟩
  unfold serverFrame observeServer
  simp only [shown, Option.isSome_none, Bool.false_eq_true, if_false,
    gate_sole sole f]
  generalize budgeted rows m n r.truncate = budget
  have held : r.held = [] := sole.held
  -- The relay that has written the frame and goes on.
  have goesOn (left : Option Nat) (heldSize : Nat) :
      ServerSpent parseDuration rows n ⟨true, left, false⟩ f r
        { r with
          state := (r.state.backend f).2
          matchers := [n]
          held := []
          heldSize := heldSize
          truncate := left
          toClient := r.toClient ++ [⟨r.received, f⟩]
          received := r.received + 1
          trace := trace
          exit := none } :=
    ⟨⟨rfl, scenario, rfl⟩, rfl, (List.append_nil _).symm, rfl, fun _ => rfl⟩
  cases tag : f.backendTag with
  | dataRow =>
      rcases budget with _ | _ | left
      · simpa [spend, deliver, tag, held] using goesOn none r.heldSize
      · simp only [spend, true_and, if_true]
        exact ⟨⟨rfl, scenario, held⟩, (List.append_nil _).symm, rfl, rfl,
          by simp⟩
      · cases left with
        | zero =>
            simp only [spend, deliver, tag, held]
            exact ⟨⟨rfl, scenario, rfl⟩, rfl, rfl, rfl, by simp⟩
        | succ left =>
            simpa [spend, deliver, tag, held] using
              goesOn (some (left + 1)) r.heldSize
  | readyForQuery =>
      simpa [spend, deliver, settle, tag, held] using goesOn none 0
  | _ =>
      simpa [spend, deliver, tag, held] using goesOn budget r.heldSize

/-! ## Runs behind the fault -/

/-- What a relay behind the fault shows of a countdown. -/
structure Counted
    (r t : Relay)
    (counted : List Frame × Ending) : Prop where
  toClient :
    t.toClient.map Delivery.frame =
      r.toClient.map Delivery.frame ++ counted.1
  cut :
    counted.2 = .cut →
      t.exit = some .ok ∧ t.sockets = r.sockets ++ [(.frontend, .reset)]
  uncut :
    counted.2 ≠ .cut →
      (Side.frontend, Mode.reset) ∉ r.sockets →
        (Side.frontend, Mode.reset) ∉ t.sockets

theorem counted_left
    {t : Relay}
    (toClient : t.toClient = r.toClient)
    (sockets :
      t.sockets = r.sockets ∨
        ∃ side, t.sockets = r.sockets ++ [(side, Mode.close)]) :
    Counted r t ([], .left) := by
  refine ⟨by simp [toClient], nofun, ?_⟩
  intro _ clean
  rcases sockets with same | ⟨side, closed⟩
  · rw [same]
    exact clean
  · simp [closed, clean]

/-- Behind the fault a relay is a countdown. -/
theorem run_countdown
    (sha256 : Bytes → String)
    (sole : Sole parseDuration rows m r)
    (marked : m.fired = true)
    (running : r.exit = none)
    (inputs : List Input) :
    Counted r (r.run sha256 parseDuration inputs)
      (countdown r.truncate inputs) := by
  induction inputs generalizing m r with
  | nil =>
      exact ⟨by simp [run, countdown], by simp [countdown],
        fun _ clean => clean⟩
  | cons input later inductionHypothesis =>
      rw [run, Machine.run_cons]
      change Counted r ((r.step sha256 parseDuration input).run sha256
        parseDuration later) _
      -- A relay that has left the loop stays as it is.
      have leaves
          {t : Relay}
          (toClient : t.toClient = r.toClient)
          (sockets :
            t.sockets = r.sockets ∨
              ∃ side, t.sockets = r.sockets ++ [(side, Mode.close)])
          (exited : t.exit.isSome = true) :
          Counted r (t.run sha256 parseDuration later) ([], .left) := by
        rw [run_of_exit sha256 parseDuration exited]
        exact counted_left toClient sockets
      unfold step
      rw [if_neg (by simp [running])]
      rcases input with (f | _ | _) | (f | _ | _)
      · obtain ⟨⟨⟨n, next, fired⟩, truncate, toClient, sockets⟩, exit⟩ :=
          clientFrame_sole sha256 sole f
        rw [countdown]
        by_cases terminates : f.frontendTag = .terminate
        · rw [if_pos terminates] at exit ⊢
          exact leaves toClient (Or.inl sockets) (by simp [exit])
        · rw [if_neg terminates] at exit ⊢
          obtain ⟨frames, cut, uncut⟩ :=
            inductionHypothesis next (fired.trans marked) exit
          rw [truncate] at frames cut uncut
          rw [toClient] at frames
          rw [sockets] at cut uncut
          exact ⟨frames, cut, uncut⟩
      · exact leaves rfl (Or.inr ⟨_, rfl⟩) rfl
      · exact leaves rfl (Or.inl rfl) rfl
      · obtain ⟨n, follows, -, turn⟩ := serverFrame_sole sole f
        have budget : budgeted rows m n r.truncate = r.truncate := by
          simp [budgeted, marked]
        rw [budget] at turn
        have kept := spend_written r.truncate f.backendTag
        rw [countdown]
        simp only
        generalize spend r.truncate f.backendTag = spent at turn kept ⊢
        obtain ⟨next, toClient, sockets, exit, truncate⟩ := turn
        cases cuts : spent.cut with
        | true =>
            rw [cuts, if_pos rfl] at exit sockets
            rw [if_pos rfl, run_of_exit sha256 parseDuration (by simp [exit])]
            refine ⟨?_, fun _ => ⟨exit, sockets⟩, fun other => absurd rfl other⟩
            rw [toClient]
            cases spent.written <;> simp
        | false =>
            rw [cuts, if_neg (by simp)] at exit sockets
            rw [kept cuts, if_pos rfl] at toClient
            obtain ⟨frames, cut, uncut⟩ :=
              inductionHypothesis next (follows.fired marked) exit
            rw [truncate cuts] at frames cut uncut
            rw [sockets, List.append_nil] at cut uncut
            rw [if_neg (by simp)]
            refine ⟨?_, cut, uncut⟩
            rw [frames, toClient]
            simp
      · exact leaves rfl (Or.inr ⟨_, rfl⟩) rfl
      · exact leaves rfl (Or.inl rfl) rfl

/-! ## Runs up to the fault -/

/-- Whether some scenario has fired. -/
def hasFired (r : Relay) : Bool :=
  r.matchers.any Matcher.fired

/-- A fault at the last frame of a run. -/
structure FiresAt
    (sha256 : Bytes → String)
    (parseDuration : String → Except String Nat)
    (r : Relay)
    (f : Frame) : Prop where
  before : r.hasFired = false
  after : (r.step sha256 parseDuration (.server (.frame f))).hasFired = true

/-- What the connection looks like until the fault. -/
structure Waits
    (parseDuration : String → Except String Nat)
    (rows : Nat)
    (inputs : List Input)
    (m : Matcher)
    (r : Relay) : Prop where
  sole : Sole parseDuration rows m r
  unspent :
    m.fired = false →
      r.truncate = none ∧ r.sockets = [] ∧
        r.toClient.map Delivery.frame = serverFrames inputs

theorem waits_run
    (sha256 : Bytes → String)
    {s : Scenario}
    (scenario : Truncates parseDuration rows s)
    (id : Nat)
    (startup : StartupMetadata)
    (inputs : List Input)
    (running :
      ((start id startup [s]).run sha256 parseDuration inputs).exit = none) :
    ∃ m, Waits parseDuration rows inputs m
      ((start id startup [s]).run sha256 parseDuration inputs) := by
  induction inputs using List.reverseRecOn with
  | nil =>
      exact ⟨Matcher.new s, ⟨rfl, scenario, rfl⟩, fun _ => ⟨rfl, rfl, rfl⟩⟩
  | append_singleton before input inductionHypothesis =>
      rw [run_concat] at running ⊢
      have earlier := running_of_run sha256 parseDuration [input] running
      obtain ⟨m, sole, unspent⟩ := inductionHypothesis earlier
      generalize (start id startup [s]).run sha256 parseDuration before = r
        at running earlier sole unspent ⊢
      unfold step at running ⊢
      rw [if_neg (by simp [earlier])] at running ⊢
      match input with
      | .client (.frame f) =>
          obtain ⟨⟨⟨n, next, fired⟩, truncate, toClient, sockets⟩, -⟩ :=
            clientFrame_sole sha256 sole f
          refine ⟨n, next, ?_⟩
          rw [fired]
          simp only [truncate, toClient, sockets]
          simpa [serverFrames] using unspent
      | .server (.frame f) =>
          obtain ⟨n, follows, -, turn⟩ := serverFrame_sole sole f
          refine ⟨n, turn.sole, ?_⟩
          intro unmarked
          obtain ⟨none, sockets, frames⟩ := unspent (follows.unfired unmarked)
          have budget : budgeted rows m n r.truncate = Option.none := by
            simp [budgeted, unmarked, none]
          rw [budget] at turn
          have uncut : spend Option.none f.backendTag = ⟨true, Option.none, false⟩ := by
            cases f.backendTag <;> rfl
          rw [uncut] at turn
          refine ⟨turn.truncate rfl, ?_, ?_⟩
          · simpa [sockets] using turn.sockets
          · rw [turn.toClient]
            simp [frames, serverFrames]
      | .client .eof =>
          cases running
      | .client (.error _) =>
          cases running
      | .server .eof =>
          cases running
      | .server (.error _) =>
          cases running

/-- Right behind the fault: the row description is out and the budget is set. -/
structure Starts
    (parseDuration : String → Except String Nat)
    (rows : Nat)
    (written : List Frame)
    (m : Matcher)
    (r : Relay) : Prop where
  sole : Sole parseDuration rows m r
  fired : m.fired = true
  running : r.exit = none
  truncate : r.truncate = some rows
  sockets : r.sockets = []
  toClient : r.toClient.map Delivery.frame = written

theorem starts_of_fires
    {s : Scenario}
    (scenario : Truncates parseDuration rows s)
    (id : Nat)
    (startup : StartupMetadata)
    (inputs : List Input)
    {f : Frame}
    (fires :
      FiresAt sha256 parseDuration
        ((start id startup [s]).run sha256 parseDuration inputs) f) :
    ∃ m, Starts parseDuration rows (serverFrames inputs ++ [f]) m
      ((start id startup [s]).run sha256 parseDuration
        (inputs ++ [.server (.frame f)])) := by
  obtain ⟨before, after⟩ := fires
  have waits := waits_run sha256 scenario id startup inputs
  rw [run_concat]
  generalize (start id startup [s]).run sha256 parseDuration inputs = r
    at before after waits ⊢
  by_cases exited : r.exit.isSome = true
  · rw [step_of_exit sha256 parseDuration exited, before] at after
    cases after
  · have running : r.exit = none := by simpa using exited
    obtain ⟨m, sole, unspent⟩ := waits running
    unfold step at after ⊢
    rw [if_neg exited] at after ⊢
    obtain ⟨n, -, started, turn⟩ := serverFrame_sole sole f
    have unmarked : m.fired = false := by
      simpa [hasFired, sole.matchers] using before
    have marked : n.fired = true := by
      simpa [hasFired, turn.sole.matchers] using after
    obtain ⟨-, sockets, frames⟩ := unspent unmarked
    have budget : budgeted rows m n r.truncate = some rows :=
      if_pos ⟨unmarked, marked⟩
    rw [budget, started unmarked marked] at turn
    refine ⟨n, turn.sole, marked, turn.exit, turn.truncate rfl, ?_, ?_⟩
    · simpa [spend, sockets] using turn.sockets
    · rw [turn.toClient]
      simp [spend, frames]

/--
A result set with at least as many rows as the budget, and at least one, is cut
behind exactly that many rows.  Whatever the client sends meanwhile, every other
server frame before the cut is written, and nothing is written behind it.
-/
theorem truncates_after_rows
    (sha256 : Bytes → String)
    {s : Scenario}
    (scenario : Truncates parseDuration rows s)
    (id : Nat)
    (startup : StartupMetadata)
    (inputs : List Input)
    {f : Frame}
    (fires :
      FiresAt sha256 parseDuration
        ((start id startup [s]).run sha256 parseDuration inputs) f)
    {span : List Input}
    (within : ∀ input ∈ span, WithinResult input)
    (enough : max rows 1 ≤ ((serverFrames span).filter isRow).length)
    (later : List Input) :
    let t := (start id startup [s]).run sha256 parseDuration
      (inputs ++ [.server (.frame f)] ++ (span ++ later))
    ∃ shown hidden,
      serverFrames span = shown ++ hidden ∧ CutAt rows shown hidden ∧
        t.toClient.map Delivery.frame = serverFrames inputs ++ [f] ++ shown ∧
        t.exit = some .ok ∧ t.sockets = [(.frontend, .reset)] := by
  intro t
  obtain ⟨m, starts⟩ := starts_of_fires scenario id startup inputs fires
  have counted :=
    run_countdown sha256 starts.sole starts.fired starts.running
      (span ++ later)
  obtain ⟨shown, hidden, shape, isCut, cut⟩ :=
    countdown_cut within enough later
  rw [starts.truncate, isCut] at counted
  obtain ⟨exit, sockets⟩ := counted.cut rfl
  have whole : t = _ := run_append sha256 parseDuration _ _ _
  rw [whole]
  refine ⟨shown, hidden, shape, cut, ?_, exit, ?_⟩
  · rw [counted.toClient, starts.toClient]
  · rw [sockets, starts.sockets]
    rfl

/-- Cut a result after some rows. -/
def cutAfter (rows : Nat) : Scenario where
  version := 1
  name := "cut result"
  when := { event := "result.started" }
  action := { truncateResult := some ⟨rows⟩ }

theorem cutAfter_truncates (rows : Nat) :
    Truncates (fun _ => .ok 0) rows (cutAfter rows) := by
  have named : "cut result".toList.all isWhiteSpace = false := by decide
  have event : "result.started" ∈ EVENTS := by decide
  have valid : (cutAfter rows).Valid fun _ => .ok 0 :=
    ⟨rfl, named, event, ⟨nofun, nofun⟩, nofun, nofun, by simp [cutAfter],
      by simp [cutAfter]⟩
  exact ⟨Scenario.validate_iff.mpr valid, rfl, rfl, rfl⟩

/-- A server frame without a body. -/
def answered (tag : Char) : Input :=
  .server (.frame (message tag []))

/-- A notice and a client frame between the rows of a result. -/
theorem truncates_after_rows_twoRows :
    let query := [Input.client (.frame (message 'Q' (ascii "SELECT 1" ++ [0])))]
    let span :=
      [answered 'N', .client (.frame (message 'H' [])), answered 'D',
        answered 'N', answered 'D']
    let t := (start 1 default [cutAfter 1]).run sampleSha256 (fun _ => .ok 0)
      (query ++ [answered 'T'] ++ (span ++ [answered 'C']))
    ∃ shown hidden,
      serverFrames span = shown ++ hidden ∧ CutAt 1 shown hidden ∧
        t.toClient.map Delivery.frame = [message 'T' []] ++ shown ∧
        t.exit = some .ok ∧ t.sockets = [(.frontend, .reset)] := by
  intro query span t
  have fires :
      FiresAt sampleSha256 (fun _ => .ok 0)
        ((start 1 default [cutAfter 1]).run sampleSha256 (fun _ => .ok 0) query)
        (message 'T' []) :=
    ⟨by decide +kernel, by decide +kernel⟩
  have within : ∀ input ∈ span, WithinResult input := by
    decide +kernel
  exact truncates_after_rows sampleSha256 (cutAfter_truncates 1) 1 default query
    fires within (by decide +kernel) [answered 'C']

/--
A fault whose result set is too short for the budget goes on counting.  The
connection is not cut exactly when the rows up to the next `ReadyForQuery` stay
below the budget.
-/
theorem uncut_iff_rows_before_ready
    (sha256 : Bytes → String)
    {s : Scenario}
    (scenario : Truncates parseDuration rows s)
    (id : Nat)
    (startup : StartupMetadata)
    (inputs : List Input)
    {f : Frame}
    (fires :
      FiresAt sha256 parseDuration
        ((start id startup [s]).run sha256 parseDuration inputs) f)
    (rest : List Input) :
    let t := (start id startup [s]).run sha256 parseDuration
      (inputs ++ [.server (.frame f)] ++ rest)
    rowsBefore .commandComplete rest < max rows 1 →
    (((Side.frontend, Mode.reset) ∉ t.sockets ∧
        t.toClient.map Delivery.frame =
          serverFrames inputs ++ [f] ++ serverFrames (heard rest)) ↔
      rowsBefore .readyForQuery rest < max rows 1) := by
  intro t _
  obtain ⟨m, starts⟩ := starts_of_fires scenario id startup inputs fires
  have counted :=
    run_countdown sha256 starts.sole starts.fired starts.running
      rest
  have whole : t = _ := run_append sha256 parseDuration _ _ _
  rw [← whole, starts.truncate] at counted
  rw [← Nat.not_le, ← countdown_cut_iff]
  constructor
  · rintro ⟨clean, -⟩ isCut
    rw [(counted.cut isCut).2] at clean
    simp at clean
  · intro uncut
    refine ⟨counted.uncut uncut (by simp [starts.sockets]), ?_⟩
    rw [counted.toClient, starts.toClient, countdown_frames uncut]

/-- One row, and two rows of another result behind a `ReadyForQuery`. -/
theorem uncut_iff_rows_before_ready_nextCycle :
    let query := [Input.client (.frame (message 'Q' (ascii "SELECT 1" ++ [0])))]
    let rest :=
      [answered 'D', answered 'C', .server (.frame (message 'Z' (ascii "I")))] ++
        query ++ [answered 'T', answered 'D', answered 'D']
    let t := (start 1 default [cutAfter 2]).run sampleSha256 (fun _ => .ok 0)
      (query ++ [answered 'T'] ++ rest)
    (Side.frontend, Mode.reset) ∉ t.sockets ∧
      t.toClient.map Delivery.frame =
        serverFrames query ++ [message 'T' []] ++ serverFrames (heard rest) := by
  intro query rest t
  have fires :
      FiresAt sampleSha256 (fun _ => .ok 0)
        ((start 1 default [cutAfter 2]).run sampleSha256 (fun _ => .ok 0) query)
        (message 'T' []) :=
    ⟨by decide +kernel, by decide +kernel⟩
  exact (uncut_iff_rows_before_ready sampleSha256 (cutAfter_truncates 2) 1 default
    query fires rest (by decide +kernel)).mpr (by decide +kernel)

/--
One row, and two rows of another result of the same query.  The connection is
cut in the middle of the second result.
-/
theorem cuts_second_result_sameCycle :
    let query :=
      [Input.client (.frame
        (message 'Q' (ascii "SELECT 1; SELECT generate_series(1, 2)" ++ [0])))]
    let rest :=
      [answered 'D', answered 'C', answered 'T', answered 'D', answered 'D']
    let r := (start 1 default [cutAfter 2]).run sampleSha256 (fun _ => .ok 0)
      query
    let t := (start 1 default [cutAfter 2]).run sampleSha256 (fun _ => .ok 0)
      (query ++ [answered 'T'] ++ rest)
    Truncates (fun _ => .ok 0) 2 (cutAfter 2) ∧
      FiresAt sampleSha256 (fun _ => .ok 0) r (message 'T' []) ∧
      rowsBefore .commandComplete rest < max 2 1 ∧
      (Side.frontend, Mode.reset) ∈ t.sockets ∧
      t.toClient.map Delivery.frame =
        [message 'T' [], message 'D' [], message 'C' [], message 'T' [],
          message 'D' []] := by
  intro query rest r t
  exact ⟨cutAfter_truncates 2, ⟨by decide +kernel, by decide +kernel⟩,
    by decide +kernel, by decide +kernel, by decide +kernel⟩

end

end Relay

end Pgfault
