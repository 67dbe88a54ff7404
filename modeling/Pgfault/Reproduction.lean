import Pgfault.TraceAudit

namespace Pgfault

open Matcher

/-!
# Replay reproduces a run

A relay depends on its scenarios only through what fires at the events it
observes and through the boundaries the unfired ones wait for.  Two lists of
scenarios that agree on both drive the relay through the same run; this is
`abreast_run`.

The schedules that `replay` builds from the trace of a run agree with the
scenarios of that run if every scenario fired, every schedule meets its recorded
event first, and no two schedules are the same.  Then the same traffic gives the
same run again (`replay_reproduces`).
-/

/-! ## Relays side by side -/

/-- A record with its scenario written anew. -/
def Record.rewrite (anew : Event → Scenario → Scenario) : Record → Record
  | .fault e s => .fault e (anew e s)
  | record => record

namespace Trace

@[simp] theorem semantics_rewrite
    (anew : Event → Scenario → Scenario)
    (records : List Record) :
    semantics (records.map (Record.rewrite anew)) = semantics records := by
  unfold semantics
  rw [List.filterMap_map]
  congr 1
  funext record
  cases record <;> rfl

end Trace

namespace Relay

/-- Two relays that differ in their matchers and their records only. -/
structure Twin (r q : Relay) : Prop where
  state : q.state = r.state
  held : q.held = r.held
  heldSize : q.heldSize = r.heldSize
  truncate : q.truncate = r.truncate
  toServer : q.toServer = r.toServer
  toClient : q.toClient = r.toClient
  received : q.received = r.received
  sockets : q.sockets = r.sockets
  exit : q.exit = r.exit

/-- Scenarios that fire alike at some events and wait for the same boundaries. -/
structure Aligned
    (anew : Event → Scenario → Scenario)
    (scenarios schedules : List Scenario)
    (es : List Event) : Prop where
  action : ∀ e s, (anew e s).action = s.action
  fires :
    ∀ k e,
      es[k]? = some e →
      firing (allBehind (schedules.map new) (es.take k)) e =
        (firing (allBehind (scenarios.map new) (es.take k)) e).map (anew e)
  gates :
    ∀ k boundary,
      (allBehind (schedules.map new) (es.take k)).any
          (fun m => m.needsGate boundary) =
        (allBehind (scenarios.map new) (es.take k)).any
          (fun m => m.needsGate boundary)

/-- Two relays that have told the same events to their matchers. -/
structure Abreast
    (anew : Event → Scenario → Scenario)
    (scenarios schedules : List Scenario)
    (r q : Relay) : Prop where
  twin : Twin r q
  matchers :
    r.matchers = allBehind (scenarios.map new) (Trace.semantics r.trace)
  others :
    q.matchers = allBehind (schedules.map new) (Trace.semantics r.trace)
  trace : q.trace = r.trace.map (Record.rewrite anew)

section

variable {sha256 : Bytes → String} {parseDuration : String → Except String Nat}
variable {anew : Event → Scenario → Scenario}
variable {scenarios schedules : List Scenario} {es : List Event}

theorem abreast_start (id : Nat) (startup : StartupMetadata) :
    Abreast anew scenarios schedules (start id startup scenarios)
      (start id startup schedules) where
  twin := ⟨rfl, rfl, rfl, rfl, rfl, rfl, rfl, rfl, rfl⟩
  matchers := (allBehind_nil _).symm
  others := (allBehind_nil _).symm
  trace := rfl

/-- Actions are all that counts of what has fired. -/
theorem acts_congr
    {fired others : List Scenario}
    (same : others.map Scenario.action = fired.map Scenario.action)
    (a : Applied) :
    a.acts others = a.acts fired := by
  have folded (list : List Scenario) :
      a.acts list = (list.map Scenario.action).foldl Applied.act a := by
    rw [List.foldl_map]
    rfl
  rw [folded, folded, same]

/-- Aligned scenarios behind the same events fire alike at the next ones. -/
theorem Aligned.reports
    (aligned : Aligned anew scenarios schedules es)
    {before next : List Event}
    (inside : before ++ next <+: es) :
    Pgfault.reports (allBehind (schedules.map new) before) next =
        (Pgfault.reports (allBehind (scenarios.map new) before) next).map
          (Record.rewrite anew) ∧
      (firings (allBehind (schedules.map new) before) next).map
          Scenario.action =
        (firings (allBehind (scenarios.map new) before) next).map
          Scenario.action := by
  induction next generalizing before with
  | nil =>
      exact ⟨rfl, rfl⟩
  | cons e rest inductionHypothesis =>
      obtain ⟨behind, rfl⟩ := inside
      have inside : before ++ [e] ++ rest <+: before ++ e :: rest ++ behind :=
        ⟨behind, by simp⟩
      obtain ⟨later, laterActions⟩ := inductionHypothesis inside
      have now := aligned.fires before.length e (by simp)
      rw [List.append_assoc, List.take_left] at now
      simp only [Pgfault.reports, firings, ← allBehind_append, now, later,
        List.map_append, laterActions]
      constructor
      · simp [Record.rewrite, Function.comp_def]
      · simp [Function.comp_def, aligned.action]

/-- Other fields of the relays play no part for the matchers and the trace. -/
theorem Abreast.of_same
    {r q r' q' : Relay}
    (abreast : Abreast anew scenarios schedules r q)
    (twin : Twin r' q')
    (matchers : r'.matchers = r.matchers)
    (trace : r'.trace = r.trace)
    (others : q'.matchers = q.matchers)
    (traces : q'.trace = q.trace) :
    Abreast anew scenarios schedules r' q' where
  twin := twin
  matchers := by rw [matchers, trace]; exact abreast.matchers
  others := by rw [others, trace]; exact abreast.others
  trace := by rw [traces, trace]; exact abreast.trace

/-- Showing the same events to both. -/
theorem Abreast.apply
    (aligned : Aligned anew scenarios schedules es)
    (punctual : ∀ s ∈ scenarios, Punctual parseDuration s)
    (punctualToo : ∀ s ∈ schedules, Punctual parseDuration s)
    {r q : Relay}
    (abreast : Abreast anew scenarios schedules r q)
    {events : List Event}
    (inside : Trace.semantics r.trace ++ events <+: es) :
    Abreast anew scenarios schedules (r.apply parseDuration events).1
        (q.apply parseDuration events).1 ∧
      (q.apply parseDuration events).2 = (r.apply parseDuration events).2 := by
  have fresh {list : List Scenario}
      (each : ∀ s ∈ list, Punctual parseDuration s) :
      ∀ m ∈ allBehind (list.map new) (Trace.semantics r.trace),
        Punctual parseDuration m.scenario :=
    forall_allBehind (by simpa [new] using each) _
  have ready : ∀ m ∈ r.matchers, Punctual parseDuration m.scenario := by
    rw [abreast.matchers]
    exact fresh punctual
  have readyToo : ∀ m ∈ q.matchers, Punctual parseDuration m.scenario := by
    rw [abreast.others]
    exact fresh punctualToo
  obtain ⟨recorded, actions⟩ := aligned.reports inside
  rw [← abreast.matchers, ← abreast.others] at recorded actions
  -- What the fired scenarios do depends on their actions and the loop only.
  have acted :
      q.borrow.acts (firings q.matchers events) =
        (r.borrow.acts (firings r.matchers events)).traced q.trace := by
    have borrowed : q.borrow = r.borrow.traced q.trace := by
      simp only [borrow, Applied.traced, abreast.twin.truncate,
        abreast.twin.sockets]
    rw [acts_congr actions, borrowed, Applied.acts_traced]
  rw [apply_eq ready, apply_eq readyToo, acted]
  refine ⟨⟨⟨abreast.twin.state, abreast.twin.held, abreast.twin.heldSize, rfl,
    abreast.twin.toServer, abreast.twin.toClient, abreast.twin.received, rfl,
    rfl⟩, ?_, ?_, ?_⟩, rfl⟩
  · simp only [Trace.semantics_append, Trace.semantics_reports,
      allBehind_append, ← abreast.matchers]
  · simp only [Trace.semantics_append, Trace.semantics_reports,
      allBehind_append, ← abreast.others]
  · simp only [List.map_append, recorded, abreast.trace]

/-- Both gates close at the same frames. -/
theorem Abreast.gate
    (aligned : Aligned anew scenarios schedules es)
    {r q : Relay}
    (abreast : Abreast anew scenarios schedules r q)
    (inside : Trace.semantics r.trace <+: es)
    (f : Frame) :
    q.gate f = r.gate f := by
  obtain ⟨behind, rfl⟩ := inside
  have same (boundary : String) :
      q.matchers.any (fun m => m.needsGate boundary) =
        r.matchers.any (fun m => m.needsGate boundary) := by
    have gates := aligned.gates (Trace.semantics r.trace).length boundary
    rw [List.take_left] at gates
    rw [abreast.others, gates, ← abreast.matchers]
  simp only [Relay.gate, abreast.twin.state, same]

theorem Abreast.finish
    {r q : Relay}
    (abreast : Abreast anew scenarios schedules r q) :
    Abreast anew scenarios schedules r.finish q.finish :=
  abreast.of_same { abreast.twin with exit := rfl } rfl rfl rfl rfl

theorem Abreast.cut
    {r q : Relay}
    (abreast : Abreast anew scenarios schedules r q) :
    Abreast anew scenarios schedules r.cut q.cut := by
  have read : Trace.semantics r.cut.trace = Trace.semantics r.trace := by
    have record : r.cut.trace = r.trace ++ [cutRecord r.state.id] := rfl
    rw [record, Trace.semantics_append]
    exact List.append_nil _
  refine ⟨{ abreast.twin with sockets := ?_, exit := rfl }, ?_, ?_, ?_⟩
  · exact congrArg (· ++ _) abreast.twin.sockets
  · rw [read]
    exact abreast.matchers
  · rw [read]
    exact abreast.others
  · simp only [Relay.cut, Relay.finish, List.map_append, abreast.trace,
      abreast.twin.state]
    rfl

theorem Abreast.deliver
    {r q : Relay}
    (abreast : Abreast anew scenarios schedules r q)
    (gate suppress : Bool)
    (d : Delivery) :
    Abreast anew scenarios schedules (r.deliver gate suppress d)
      (q.deliver gate suppress d) := by
  have twin := abreast.twin
  unfold Relay.deliver settle hold
  simp only [twin.held, twin.heldSize, twin.toClient]
  repeat' split
  all_goals
    refine abreast.of_same
      ⟨twin.state, ?_, ?_, ?_, twin.toServer, ?_, twin.received, twin.sockets,
        ?_⟩ rfl rfl rfl rfl
    all_goals
      first
        | rfl
        | exact twin.held
        | exact twin.heldSize
        | exact twin.truncate
        | exact twin.toClient
        | exact twin.exit

section

variable (aligned : Aligned anew scenarios schedules es)
variable (punctual : ∀ s ∈ scenarios, Punctual parseDuration s)
variable (punctualToo : ∀ s ∈ schedules, Punctual parseDuration s)

include aligned punctual punctualToo

theorem Abreast.forward
    {r q : Relay}
    (abreast : Abreast anew scenarios schedules r q)
    (f : Frame)
    (inside : Trace.semantics (r.forward parseDuration f).trace <+: es) :
    Abreast anew scenarios schedules (r.forward parseDuration f)
      (q.forward parseDuration f) := by
  have twin := abreast.twin
  have ready : ∀ m ∈ r.matchers, Punctual parseDuration m.scenario := by
    rw [abreast.matchers]
    exact forall_allBehind (by simpa [new] using punctual) _
  unfold Relay.forward at inside ⊢
  simp only [twin.state] at inside ⊢
  by_cases statement : f.frontendTag = .query ∨ f.frontendTag = .execute
  · simp only [if_pos statement] at inside ⊢
    have sent : Abreast anew scenarios schedules
        { r with
          toServer := r.toServer ++ [f]
          state := r.state.forwarded.2 }
        { q with
          toServer := q.toServer ++ [f]
          state := r.state.forwarded.2 } := by
      refine abreast.of_same ?_ rfl rfl rfl rfl
      exact { twin with state := rfl, toServer := by rw [twin.toServer] }
    have room : Trace.semantics r.trace ++ [r.state.forwarded.1] <+: es := by
      refine List.IsPrefix.trans ?_ inside
      rw [apply_eq (r :=
        { r with
          toServer := r.toServer ++ [f]
          state := r.state.forwarded.2 }) ready]
      split <;> simp [Relay.finish, Trace.semantics_reports]
    obtain ⟨next, same⟩ := sent.apply aligned punctual punctualToo room
    rw [same, next.twin.exit]
    split
    · exact next.finish
    · exact next
  · simp only [if_neg statement]
    refine abreast.of_same ?_ rfl rfl rfl rfl
    exact { twin with state := rfl, toServer := by rw [twin.toServer] }

theorem Abreast.clientFrame
    {r q : Relay}
    (abreast : Abreast anew scenarios schedules r q)
    (f : Frame)
    (inside :
      Trace.semantics (r.clientFrame sha256 parseDuration f).trace <+: es) :
    Abreast anew scenarios schedules (r.clientFrame sha256 parseDuration f)
      (q.clientFrame sha256 parseDuration f) := by
  have twin := abreast.twin
  have ready : ∀ m ∈ r.matchers, Punctual parseDuration m.scenario := by
    rw [abreast.matchers]
    exact forall_allBehind (by simpa [new] using punctual) _
  have observed : Abreast anew scenarios schedules
      { r with state := (r.state.frontend sha256 f).2 }
      { q with state := (r.state.frontend sha256 f).2 } := by
    refine abreast.of_same ?_ rfl rfl rfl rfl
    exact { twin with state := rfl }
  have tells := tells_apply sha256 (r := r)
    (t := { r with state := (r.state.frontend sha256 f).2 })
    (.frontend f) ready rfl rfl rfl
  have read := congrArg Trace.semantics tells.trace
  rw [show (History.called sha256 r.state (.frontend f)).1 =
    (r.state.frontend sha256 f).1 from rfl] at read tells
  have raised : r.state.raisedBy sha256 [.frontend f] =
      (r.state.frontend sha256 f).1 := List.append_nil _
  rw [List.append_nil, raised, Trace.semantics_append,
    Trace.semantics_reports] at read
  -- The events of the frame are in the trace, whatever becomes of the frame.
  have room :
      Trace.semantics r.trace ++ (r.state.frontend sha256 f).1 <+: es := by
    refine List.IsPrefix.trans ?_ inside
    rw [← read]
    unfold Relay.clientFrame
    simp only
    generalize
      Relay.apply parseDuration
        { r with state := (r.state.frontend sha256 f).2 }
        (r.state.frontend sha256 f).1 = shown at tells ⊢
    obtain ⟨calls, -, sent⟩ :=
      forward_tells sha256 (tells.punctual ready) f
    have longer : Trace.semantics shown.1.trace <+:
        Trace.semantics (shown.1.forward parseDuration f).trace := by
      rw [sent.trace, List.append_nil, Trace.semantics_append]
      exact List.prefix_append _ _
    split
    · exact List.prefix_rfl
    · split
      · exact List.prefix_rfl
      · by_cases suppress : shown.2.suppress = true
        · simp only [suppress, if_true]
          split <;> exact List.prefix_rfl
        · simp only [suppress, Bool.false_eq_true, if_false]
          split <;> exact longer
  obtain ⟨next, same⟩ := observed.apply aligned punctual punctualToo room
  unfold Relay.clientFrame at inside ⊢
  simp only [twin.state] at inside ⊢
  generalize
    Relay.apply parseDuration { r with state := (r.state.frontend sha256 f).2 }
      (r.state.frontend sha256 f).1 = shown at next same inside ⊢
  generalize
    Relay.apply parseDuration { q with state := (r.state.frontend sha256 f).2 }
      (r.state.frontend sha256 f).1 = shownToo at next same ⊢
  rw [same, next.twin.exit]
  by_cases failed : shown.1.exit.isSome = true
  · simp only [if_pos failed]
    exact next
  · simp only [if_neg failed] at inside ⊢
    by_cases disconnects : shown.2.disconnect = true
    · simp only [if_pos disconnects]
      exact next.finish
    · simp only [if_neg disconnects] at inside ⊢
      by_cases suppress : shown.2.suppress = true
      · simp only [suppress, if_true, next.twin.exit]
        split
        · exact next.finish
        · exact next
      · simp only [suppress, Bool.false_eq_true, if_false] at inside ⊢
        have sent :=
          next.forward aligned punctual punctualToo f (by
            split at inside <;> exact inside)
        rw [sent.twin.exit]
        split
        · exact sent.finish
        · exact sent

theorem Abreast.serverFrame
    {r q : Relay}
    (abreast : Abreast anew scenarios schedules r q)
    (f : Frame)
    (inside :
      Trace.semantics (r.serverFrame parseDuration f).trace <+: es) :
    Abreast anew scenarios schedules (r.serverFrame parseDuration f)
      (q.serverFrame parseDuration f) := by
  have twin := abreast.twin
  have ready : ∀ m ∈ r.matchers, Punctual parseDuration m.scenario := by
    rw [abreast.matchers]
    exact forall_allBehind (by simpa [new] using punctual) _
  have observed : Abreast anew scenarios schedules
      { r with
        state := (r.state.backend f).2
        received := r.received + 1 }
      { q with
        state := (r.state.backend f).2
        received := r.received + 1 } := by
    refine abreast.of_same ?_ rfl rfl rfl rfl
    exact { twin with state := rfl, received := rfl }
  have room : Trace.semantics r.trace ++ (r.state.backend f).1 <+: es := by
    obtain ⟨ending, -, told⟩ :=
      serverFrame_tells (fun _ => "") ready f
    refine List.IsPrefix.trans ?_ inside
    have raised : r.state.raisedBy (fun _ => "") [.backend f] =
        (r.state.backend f).1 := List.append_nil _
    rw [told.trace, raised, Trace.semantics_append, Trace.semantics_append,
      Trace.semantics_reports]
    exact List.prefix_append _ _
  have gates : q.gate f = r.gate f :=
    abreast.gate aligned ((List.prefix_append _ _).trans room) f
  obtain ⟨next, same⟩ := observed.apply aligned punctual punctualToo room
  unfold Relay.serverFrame Relay.observeServer
  simp only [twin.state, twin.received, gates]
  generalize
    Relay.apply parseDuration
      { r with
        state := (r.state.backend f).2
        received := r.received + 1 }
      (r.state.backend f).1 = shown at next same ⊢
  generalize
    Relay.apply parseDuration
      { q with
        state := (r.state.backend f).2
        received := r.received + 1 }
      (r.state.backend f).1 = shownToo at next same ⊢
  have counted : Abreast anew scenarios schedules
      (if f.backendTag = .dataRow then
        { shown.1 with truncate := shown.1.truncate.map (· - 1) }
      else shown.1)
      (if f.backendTag = .dataRow then
        { shownToo.1 with truncate := shownToo.1.truncate.map (· - 1) }
      else shownToo.1) := by
    split
    · refine next.of_same ?_ rfl rfl rfl rfl
      exact { next.twin with truncate := by rw [next.twin.truncate] }
    · exact next
  generalize
    (if f.backendTag = .dataRow then
      { shown.1 with truncate := shown.1.truncate.map (· - 1) }
    else shown.1) = before at counted ⊢
  generalize
    (if f.backendTag = .dataRow then
      { shownToo.1 with truncate := shownToo.1.truncate.map (· - 1) }
    else shownToo.1) = beforeToo at counted ⊢
  have delivered :=
    counted.deliver (r.gate f) shown.2.suppress ⟨r.received, f⟩
  rw [same, next.twin.exit, next.twin.truncate, delivered.twin.exit,
    delivered.twin.truncate]
  split
  · exact next
  · split
    · exact next.finish
    · split
      · exact next.cut
      · split
        · exact delivered.cut
        · exact delivered

/-- One turn on the same input. -/
theorem Abreast.step
    {r q : Relay}
    (abreast : Abreast anew scenarios schedules r q)
    (input : Input)
    (inside :
      Trace.semantics (r.step sha256 parseDuration input).trace <+: es) :
    Abreast anew scenarios schedules (r.step sha256 parseDuration input)
      (q.step sha256 parseDuration input) := by
  have twin := abreast.twin
  unfold Relay.step at inside ⊢
  rw [twin.exit]
  by_cases exited : r.exit.isSome = true
  · simp only [if_pos exited]
    exact abreast
  · simp only [if_neg exited] at inside ⊢
    have closes (side : Side) :
        Abreast anew scenarios schedules
          { r with sockets := r.sockets ++ [(side, Mode.close)] }
          { q with sockets := q.sockets ++ [(side, Mode.close)] } := by
      refine abreast.of_same ?_ rfl rfl rfl rfl
      exact { twin with sockets := by rw [twin.sockets] }
    have fails (message : String) :
        Abreast anew scenarios schedules
          { r with exit := some (.error message) }
          { q with exit := some (.error message) } := by
      refine abreast.of_same ?_ rfl rfl rfl rfl
      exact { twin with exit := rfl }
    cases input with
    | client read =>
        cases read with
        | frame f =>
            exact abreast.clientFrame aligned punctual punctualToo f inside
        | eof =>
            exact (closes .upstream).finish
        | error message =>
            exact fails message
    | server read =>
        cases read with
        | frame f =>
            exact abreast.serverFrame aligned punctual punctualToo f inside
        | eof =>
            exact (closes .frontend).finish
        | error message =>
            exact fails message

/--
Aligned scenarios make the same run of the same inputs, up to what the fault
records call their scenarios.
-/
theorem abreast_run
    (id : Nat)
    (startup : StartupMetadata)
    (inputs : List Input)
    (inside :
      Trace.semantics
        ((start id startup scenarios).run sha256 parseDuration
          inputs).trace <+: es) :
    Abreast anew scenarios schedules
      ((start id startup scenarios).run sha256 parseDuration inputs)
      ((start id startup schedules).run sha256 parseDuration inputs) := by
  induction inputs using List.reverseRecOn with
  | nil =>
      exact abreast_start id startup
  | append_singleton before input inductionHypothesis =>
      rw [run_concat] at inside
      rw [run_concat, run_concat]
      have ready :
          ∀ m ∈ (start id startup scenarios).matchers,
            Punctual parseDuration m.scenario := by
        simpa [start, new] using punctual
      obtain ⟨_, _, _, told⟩ :=
        tells_run sha256 ready before
      obtain ⟨_, _, _, next⟩ :=
        step_tells sha256 (told.punctual ready) input
      have shorter :
          Trace.semantics
              ((start id startup scenarios).run sha256 parseDuration
                before).trace <+: es := by
        refine List.IsPrefix.trans ?_ inside
        rw [next.trace, List.append_assoc, Trace.semantics_append]
        exact List.prefix_append _ _
      exact (inductionHypothesis shorter).step aligned punctual punctualToo input
        inside

end

end

end Relay

/-! ## Schedules against the run they come from -/

namespace Trace

/-- The schedules of the recorded faults, in the order of the trace. -/
def schedules (records : List Record) : List Scenario :=
  (faults records).map fun fault => reschedule fault.1 fault.2

theorem schedules_append (records later : List Record) :
    schedules (records ++ later) = schedules records ++ schedules later := by
  simp [schedules]

/-- `replay` keeps all schedules if they are valid and distinct. -/
theorem replayLoop_eq
    {parseDuration : String → Except String Nat}
    {records : List Record}
    (valid :
      ∀ e s,
        Record.fault e s ∈ records →
        (reschedule e s).validate parseDuration = .ok ())
    {earlier : List Scenario}
    (distinct : (earlier ++ schedules records).Nodup) :
    replayLoop parseDuration records earlier =
      .ok (earlier ++ schedules records) := by
  induction records generalizing earlier with
  | nil =>
      simp [replayLoop, schedules, faults]
  | cons record rest inductionHypothesis =>
      have restValid :
          ∀ e s,
            Record.fault e s ∈ rest →
            (reschedule e s).validate parseDuration = .ok () :=
        fun e s member => valid e s (List.mem_cons_of_mem _ member)
      cases record with
      | semantic e =>
          exact inductionHypothesis restValid distinct
      | lifecycle id event detail =>
          exact inductionHypothesis restValid distinct
      | fault e s =>
          have head :
              schedules (.fault e s :: rest) =
                reschedule e s :: schedules rest := rfl
          rw [head] at distinct ⊢
          have fresh : reschedule e s ∉ earlier := by
            intro old
            exact (List.nodup_append.mp distinct).2.2 _ old _
              List.mem_cons_self rfl
          have accepted := valid e s List.mem_cons_self
          rw [List.append_cons] at distinct ⊢
          simp only [replayLoop, accepted, if_neg fresh]
          exact inductionHypothesis restValid distinct

/-- A trace whose faults carry their schedules has the same schedules. -/
theorem replayLoop_rewrite
    (parseDuration : String → Except String Nat)
    (records : List Record)
    (earlier : List Scenario) :
    replayLoop parseDuration (records.map (Record.rewrite reschedule))
        earlier =
      replayLoop parseDuration records earlier := by
  induction records generalizing earlier with
  | nil =>
      rfl
  | cons record rest inductionHypothesis =>
      cases record with
      | semantic e =>
          exact inductionHypothesis earlier
      | lifecycle id event detail =>
          exact inductionHypothesis earlier
      | fault e s =>
          have again : reschedule e (reschedule e s) = reschedule e s := rfl
          simp only [List.map_cons, Record.rewrite, replayLoop, again,
            inductionHypothesis]

theorem replay_rewrite
    (parseDuration : String → Except String Nat)
    (records : List Record) :
    replay parseDuration (records.map (Record.rewrite reschedule)) =
      replay parseDuration records := by
  simp only [replay, replayLoop_rewrite]

/-- `replay` returns all schedules if they are valid and distinct. -/
theorem replay_eq_schedules
    {parseDuration : String → Except String Nat}
    {records : List Record}
    (valid :
      ∀ e s,
        Record.fault e s ∈ records →
        (reschedule e s).validate parseDuration = .ok ())
    (distinct : (schedules records).Nodup)
    (nonempty : schedules records ≠ []) :
    replay parseDuration records = .ok (schedules records) := by
  have apart : ([] ++ schedules records).Nodup := by
    rw [List.nil_append]
    exact distinct
  have full : (schedules records).isEmpty = false := by
    simpa using nonempty
  unfold replay
  rw [replayLoop_eq valid apart, List.nil_append]
  simp [bind, Except.bind, full]

theorem mem_schedules
    {records : List Record}
    {scheduled : Scenario} :
    scheduled ∈ schedules records ↔
      ∃ e s, (e, s) ∈ faults records ∧ reschedule e s = scheduled := by
  simp [schedules]

theorem mem_due
    {scenarios : List Scenario}
    {before : List Event}
    {e : Event}
    {s : Scenario} :
    s ∈ due scenarios before e ↔
      s ∈ scenarios ∧ Wanted s e ∧ occurrences s before + 1 = awaited s := by
  simp [due]

/-- A scenario that has fired has had its occurrence. -/
theorem occurred_of_fired
    {scenarios : List Scenario}
    (positive : ∀ s ∈ scenarios, 0 < awaited s)
    {es : List Event}
    (fired : ∀ m ∈ allBehind (scenarios.map new) es, m.fired = true) :
    ∀ s ∈ scenarios, awaited s ≤ occurrences s es := by
  intro s listed
  have seen := (hasSeen_new (positive s listed)).behind es
  have marked := fired ((new s).behind es)
    (List.mem_map_of_mem (List.mem_map_of_mem listed))
  rw [seen.fired, Nat.zero_add] at marked
  exact of_decide_eq_true marked

/-- A scenario that has had its occurrence is scheduled. -/
theorem schedules_ne_nil
    {scenarios : List Scenario}
    (some_ : scenarios ≠ [])
    (positive : ∀ s ∈ scenarios, 0 < awaited s)
    {es : List Event}
    (enough : ∀ s ∈ scenarios, awaited s ≤ occurrences s es) :
    schedules (audit scenarios [] es) ≠ [] := by
  obtain ⟨s, listed⟩ := List.exists_mem_of_ne_nil scenarios some_
  have all := enough s listed
  rw [← List.take_length (l := es)] at all
  obtain ⟨j, e, -, isAt, wanted, reached⟩ := exists_due (positive s listed) all
  have isDue : s ∈ due scenarios ([] ++ es.take j) e :=
    mem_due.mpr ⟨listed, wanted, reached⟩
  have fault := fault_mem_audit isAt isDue
  refine List.ne_nil_of_mem (mem_schedules.mpr ⟨e, s, ?_, rfl⟩)
  rw [mem_faults]
  exact (audit_take_initial scenarios [] es (j + 1)).subset fault

theorem awaited_reschedule (e : Event) (s : Scenario) :
    awaited (reschedule e s) = 1 := rfl

/--
A schedule that meets its recorded event first has seen nothing before it, and
something behind it.
-/
theorem occurrences_of_first
    {es : List Event}
    (distinct : es.Nodup)
    {scheduled : Scenario}
    {e : Event}
    {j : Nat}
    (isAt : es[j]? = some e)
    (first : es.find? (wants scheduled) = some e)
    (k : Nat) :
    occurrences scheduled (es.take k) = 0 ↔ k ≤ j := by
  obtain ⟨wanted, before, after, shape, refused⟩ :=
    List.find?_eq_some_iff_append.mp first
  have place : before.length = j := by
    have inside : j < es.length := (List.getElem?_eq_some_iff.mp isAt).1
    have atBefore : es[before.length]? = some e := by
      rw [shape]
      simp
    have bound : before.length < es.length :=
      (List.getElem?_eq_some_iff.mp atBefore).1
    have same : es[before.length] = es[j] := by
      rw [(List.getElem?_eq_some_iff.mp isAt).2,
        (List.getElem?_eq_some_iff.mp atBefore).2]
    exact distinct.getElem_inj_iff.mp same
  unfold occurrences
  rw [List.countP_eq_zero]
  simp only [decide_eq_true_eq, ← wants_iff, Bool.not_eq_true]
  constructor
  · intro unseen
    by_contra further
    have inTake : e ∈ es.take k := by
      refine List.mem_iff_getElem?.mpr ⟨j, ?_⟩
      rw [List.getElem?_take_of_lt (by omega), isAt]
    rw [unseen e inTake] at wanted
    cases wanted
  · intro early x member
    rw [shape, List.take_append_of_le_length (by omega)] at member
    simpa using refused x (List.mem_of_mem_take member)

section

variable {scenarios : List Scenario} {es : List Event}
variable (positive : ∀ s ∈ scenarios, 0 < awaited s)
variable (distinct : es.Nodup)
variable
  (first :
    ∀ e s,
      (e, s) ∈ faults (audit scenarios [] es) →
      es.find? (wants (reschedule e s)) = some e)

include distinct first

/-- At every event, the schedules of the faults at that event fire. -/
theorem due_schedules
    {k : Nat}
    {e : Event}
    (isAt : es[k]? = some e) :
    due (schedules (audit scenarios [] es)) (es.take k) e =
      (due scenarios (es.take k) e).map (reschedule e) := by
  have inside : k < es.length := (List.getElem?_eq_some_iff.mp isAt).1
  have cut : es = es.take k ++ e :: es.drop (k + 1) := by
    conv_lhs => rw [← List.take_append_drop k es]
    rw [← List.getElem_cons_drop inside,
      (List.getElem?_eq_some_iff.mp isAt).2]
  have block (records : List Record) :
      schedules
          (.semantic e :: (due scenarios (es.take k) e).map (.fault e) ++
            records) =
        (due scenarios (es.take k) e).map (reschedule e) ++
          schedules records := by
    rw [List.cons_append]
    have head (records : List Record) :
        schedules (.semantic e :: records) = schedules records := rfl
    rw [head, schedules_append]
    congr 1
    rw [schedules, faults_map_fault, List.map_map]
    rfl
  have audited :
      audit scenarios [] es =
        audit scenarios [] (es.take k) ++
          (.semantic e :: (due scenarios (es.take k) e).map (.fault e) ++
            audit scenarios (es.take k ++ [e]) (es.drop (k + 1))) := by
    conv_lhs => rw [cut, audit_append, List.nil_append, audit]
  have parts :
      schedules (audit scenarios [] es) =
        schedules (audit scenarios [] (es.take k)) ++
          ((due scenarios (es.take k) e).map (reschedule e) ++
            schedules
              (audit scenarios (es.take k ++ [e]) (es.drop (k + 1)))) := by
    rw [audited, schedules_append, block]
  have known
      {records : List Record}
      {e' : Event}
      {s : Scenario}
      (member : (e', s) ∈ faults records)
      (listed : records <:+: audit scenarios [] es) :
      es.find? (wants (reschedule e' s)) = some e' :=
    first e' s (mem_faults.mpr (listed.subset (mem_faults.mp member)))
  -- Faults before the event have been seen, those behind it not yet.
  have before :
      due (schedules (audit scenarios [] (es.take k))) (es.take k) e = [] := by
    refine List.filter_eq_nil_iff.mpr ?_
    intro scheduled member
    obtain ⟨e', s, fault, rfl⟩ := mem_schedules.mp member
    obtain ⟨j, isAt', -⟩ := mem_faults_audit fault
    have early : j < k := by
      have bound := (List.getElem?_eq_some_iff.mp isAt').1
      rw [List.length_take] at bound
      omega
    rw [List.getElem?_take_of_lt early] at isAt'
    have seen :=
      occurrences_of_first distinct isAt'
        (known fault ⟨[], _, by rw [List.nil_append, audited]⟩) k
    simp only [awaited_reschedule, Bool.and_eq_true, decide_eq_true_eq,
      beq_iff_eq, not_and]
    intro _
    omega
  have after :
      due (schedules (audit scenarios (es.take k ++ [e]) (es.drop (k + 1))))
        (es.take k) e = [] := by
    refine List.filter_eq_nil_iff.mpr ?_
    intro scheduled member
    obtain ⟨e', s, fault, rfl⟩ := mem_schedules.mp member
    obtain ⟨j, isAt', -⟩ := mem_faults_audit fault
    rw [List.getElem?_drop] at isAt'
    have inTrace :
        audit scenarios (es.take k ++ [e]) (es.drop (k + 1)) <:+:
          audit scenarios [] es := by
      rw [audited, ← List.append_assoc]
      exact (List.suffix_append _ _).isInfix
    have unseen :=
      (occurrences_of_first distinct isAt' (known fault inTrace) (k + 1)).mpr
        (by omega)
    simp only [Bool.and_eq_true, decide_eq_true_eq, not_and]
    intro wanted
    have step := occurrences_take_succ isAt wanted
    omega
  have now :
      due ((due scenarios (es.take k) e).map (reschedule e)) (es.take k) e =
        (due scenarios (es.take k) e).map (reschedule e) := by
    refine List.filter_eq_self.mpr ?_
    intro scheduled member
    obtain ⟨s, isDue, rfl⟩ := List.mem_map.mp member
    have fault : (e, s) ∈ faults (audit scenarios [] es) := by
      rw [mem_faults, audited]
      refine List.mem_append_right _ (List.mem_append_left _ ?_)
      exact List.mem_cons_of_mem _ (List.mem_map_of_mem isDue)
    have meets := first e s fault
    have unseen :=
      (occurrences_of_first distinct isAt meets k).mpr (Nat.le_refl k)
    have wanted := (wants_iff _ _).mp (List.find?_some meets)
    simp [wanted, unseen, awaited_reschedule]
  rw [parts]
  unfold due at before after now ⊢
  rw [List.filter_append, List.filter_append, before, after, now]
  simp

omit distinct first in
/-- Fresh matchers behind some events and the boundaries they wait for. -/
theorem any_needsGate
    {list : List Scenario}
    (each : ∀ s ∈ list, 0 < awaited s)
    (before : List Event)
    (boundary : String) :
    (allBehind (list.map new) before).any (fun m => m.needsGate boundary) =
        true ↔
      ∃ s ∈ list, occurrences s before < awaited s ∧
        s.when.event = boundary := by
  have waiting (s : Scenario) (listed : s ∈ list) :
      ((new s).behind before).needsGate boundary = true ↔
        occurrences s before < awaited s ∧ s.when.event = boundary := by
    have seen := (hasSeen_new (each s listed)).behind before
    rw [Nat.zero_add] at seen
    rw [needsGate, seen.fired, seen.scenario]
    simp
  simp only [allBehind, List.map_map, List.any_map, List.any_eq_true,
    Function.comp_apply]
  constructor
  · rintro ⟨s, listed, waits⟩
    exact ⟨s, listed, (waiting s listed).mp waits⟩
  · rintro ⟨s, listed, waits⟩
    exact ⟨s, listed, (waiting s listed).mpr waits⟩

include positive

/--
The schedules of a run in which every scenario fires are aligned with the
scenarios: they fire at the same events and wait for the same boundaries.
-/
theorem schedules_aligned
    (fired : ∀ s ∈ scenarios, awaited s ≤ occurrences s es) :
    Relay.Aligned reschedule scenarios (schedules (audit scenarios [] es))
      es where
  action _ _ := rfl
  fires := by
    intro k e isAt
    have once :
        ∀ s ∈ schedules (audit scenarios [] es), 0 < awaited s := by
      intro s member
      obtain ⟨e', s', -, rfl⟩ := mem_schedules.mp member
      exact Nat.one_pos
    rw [firing_eq_due once, firing_eq_due positive,
      due_schedules distinct first isAt]
  gates := by
    intro k boundary
    have once :
        ∀ s ∈ schedules (audit scenarios [] es), 0 < awaited s := by
      intro s member
      obtain ⟨e', s', -, rfl⟩ := mem_schedules.mp member
      exact Nat.one_pos
    rw [Bool.eq_iff_iff, any_needsGate once, any_needsGate positive]
    constructor
    · rintro ⟨scheduled, member, unseen, named⟩
      obtain ⟨e, s, fault, rfl⟩ := mem_schedules.mp member
      obtain ⟨j, isAt, isDue⟩ := mem_faults_audit fault
      obtain ⟨listed, wanted, reached⟩ := mem_due.mp isDue
      rw [awaited_reschedule, Nat.lt_one_iff,
        occurrences_of_first distinct isAt (first e s fault)] at unseen
      refine ⟨s, listed, ?_, wanted.named.symm.trans named⟩
      rw [List.nil_append] at reached
      have fewer := occurrences_mono s es unseen
      omega
    · rintro ⟨s, listed, unseen, named⟩
      have enough : awaited s ≤ occurrences s (es.take es.length) := by
        rw [List.take_length]
        exact fired s listed
      obtain ⟨j, e, -, isAt, wanted, reached⟩ :=
        exists_due (positive s listed) enough
      have late : k ≤ j := by
        by_contra early
        have behind : j + 1 ≤ k := Nat.lt_of_not_le early
        have more := occurrences_mono s es behind
        have step := occurrences_take_succ isAt wanted
        omega
      have isDue : s ∈ due scenarios ([] ++ es.take j) e :=
        mem_due.mpr ⟨listed, wanted, reached⟩
      have fault : (e, s) ∈ faults (audit scenarios [] es) := by
        rw [mem_faults]
        exact (audit_take_initial scenarios [] es (j + 1)).subset
          (fault_mem_audit isAt isDue)
      refine ⟨reschedule e s, mem_schedules.mpr ⟨e, s, fault, rfl⟩, ?_, ?_⟩
      · rw [awaited_reschedule, Nat.lt_one_iff,
          occurrences_of_first distinct isAt (first e s fault)]
        exact late
      · exact wanted.named.trans named

end

end Trace

namespace Relay

section

variable (sha256 : Bytes → String) (parseDuration : String → Except String Nat)

/--
Replay reproduces a run.  Take the relay of one connection after any traffic that
made all its scenarios fire.  If each schedule meets its recorded event before
any other event of the run and no two schedules are the same, `replay` accepts
the trace, and a relay with its schedules goes through the same traffic in the
same way: the same frames to both sides, the same sockets severed, the same end,
and a trace that differs in the scenarios of its fault records only.  From that
trace `replay` builds the same schedules again.
-/
theorem replay_reproduces
    (id : Nat)
    (startup : StartupMetadata)
    (scenarios : List Scenario)
    (valid : ∀ s ∈ scenarios, s.validate parseDuration = .ok ())
    (some_ : scenarios ≠ [])
    (inputs : List Input)
    (fired :
      ∀ m ∈ ((start id startup scenarios).run sha256 parseDuration
          inputs).matchers, m.fired = true)
    (first :
      ∀ e s,
        .fault e s ∈
          ((start id startup scenarios).run sha256 parseDuration
            inputs).trace →
        (Trace.semantics
          ((start id startup scenarios).run sha256 parseDuration
            inputs).trace).find? (wants (Trace.reschedule e s)) = some e)
    (distinct :
      (Trace.schedules
        ((start id startup scenarios).run sha256 parseDuration
          inputs).trace).Nodup) :
    ∃ schedules,
      Trace.replay parseDuration
          ((start id startup scenarios).run sha256 parseDuration
            inputs).trace = .ok schedules ∧
        Twin ((start id startup scenarios).run sha256 parseDuration inputs)
          ((start id startup schedules).run sha256 parseDuration inputs) ∧
        ((start id startup schedules).run sha256 parseDuration inputs).trace =
          ((start id startup scenarios).run sha256 parseDuration
            inputs).trace.map (Record.rewrite Trace.reschedule) ∧
        Trace.replay parseDuration
          ((start id startup schedules).run sha256 parseDuration
            inputs).trace = .ok schedules := by
  obtain ⟨calls, ending, ends, told⟩ :=
    tells_start sha256 parseDuration id startup valid inputs
  have read := (told.explained sha256 parseDuration id startup valid ends).1
  have sourced := sourced_run sha256 parseDuration id startup scenarios inputs
  have behind :
      ((start id startup scenarios).run sha256 parseDuration
          inputs).matchers =
        allBehind (scenarios.map new)
          (Trace.semantics
            ((start id startup scenarios).run sha256 parseDuration
              inputs).trace) := by
    rw [read]
    exact told.matchers
  have numbered :
      (Trace.semantics
        ((start id startup scenarios).run sha256 parseDuration
          inputs).trace).Nodup := by
    rw [read]
    exact (ConnectionState.raisedBy_counts sha256 _ calls).nodup
  have recorded := told.faults sha256 parseDuration id startup valid ends
  have positive : ∀ s ∈ scenarios, 0 < awaited s :=
    fun s listed => (Scenario.validate_iff.mp (valid s listed)).positive
  have punctual : ∀ s ∈ scenarios, Punctual parseDuration s :=
    fun s listed => (Scenario.validate_iff.mp (valid s listed)).punctual
  have aligns := fun (es : List Event) numbered first fired =>
    @Trace.schedules_aligned scenarios es positive numbered first fired
  have runs
      (schedules : List Scenario)
      (aligned :
        Aligned Trace.reschedule scenarios schedules
          (Trace.semantics
            ((start id startup scenarios).run sha256 parseDuration
              inputs).trace))
      (punctualToo : ∀ s ∈ schedules, Punctual parseDuration s) :=
    abreast_run aligned punctual punctualToo id startup inputs List.prefix_rfl
  generalize
    (start id startup scenarios).run sha256 parseDuration inputs = r at *
  have scheduled : Trace.schedules r.trace =
      Trace.schedules
        (Trace.audit scenarios [] (Trace.semantics r.trace)) := by
    rw [Trace.schedules, recorded, Trace.schedules]
  have enough := Trace.occurred_of_fired positive (behind ▸ fired)
  have meets :
      ∀ e s,
        (e, s) ∈
          Trace.faults
            (Trace.audit scenarios [] (Trace.semantics r.trace)) →
        (Trace.semantics r.trace).find?
          (wants (Trace.reschedule e s)) = some e := by
    intro e s fault
    rw [← recorded, Trace.mem_faults] at fault
    exact first e s fault
  have accepted :
      ∀ e s,
        Record.fault e s ∈ r.trace →
        (Trace.reschedule e s).validate parseDuration = .ok () := by
    intro e s fault
    have due := sourced.trace e s fault
    exact Trace.reschedule_valid (valid s due.listed) due.named due.row
  have nonempty : Trace.schedules r.trace ≠ [] := by
    rw [scheduled]
    exact Trace.schedules_ne_nil some_ positive enough
  have replayed := Trace.replay_eq_schedules accepted distinct nonempty
  have aligned := aligns (Trace.semantics r.trace) numbered meets enough
  rw [← scheduled] at aligned
  have punctualToo :
      ∀ s ∈ Trace.schedules r.trace, Punctual parseDuration s := by
    intro s member
    obtain ⟨e, s, fault, rfl⟩ := Trace.mem_schedules.mp member
    exact (Scenario.validate_iff.mp
      (accepted e s (Trace.mem_faults.mp fault))).punctual
  have abreast := runs (Trace.schedules r.trace) aligned punctualToo
  refine ⟨Trace.schedules r.trace, replayed, abreast.twin, abreast.trace, ?_⟩
  rw [abreast.trace, Trace.replay_rewrite, replayed]

end

/-- The first of two queries is dropped. -/
def droppedFirst : List Input :=
  droppedQuery ++
    [.client (.frame (message 'Q' (ascii "SELECT 1" ++ [0]))),
      .server (.frame (message 'C' (ascii "SELECT 1" ++ [0]))),
      .server (.frame (message 'Z' (ascii "I")))]

theorem replay_reproduces_droppedFirst :
    ∃ schedules,
      Trace.replay (fun _ => .ok 0)
          ((start 1 default [Trace.dropQuery none]).run sampleSha256
            (fun _ => .ok 0) droppedFirst).trace = .ok schedules ∧
        Twin
          ((start 1 default [Trace.dropQuery none]).run sampleSha256
            (fun _ => .ok 0) droppedFirst)
          ((start 1 default schedules).run sampleSha256 (fun _ => .ok 0)
            droppedFirst) := by
  have meets :
      ∀ fault ∈ Trace.faults
          ((start 1 default [Trace.dropQuery none]).run sampleSha256
            (fun _ => .ok 0) droppedFirst).trace,
        (Trace.semantics
          ((start 1 default [Trace.dropQuery none]).run sampleSha256
            (fun _ => .ok 0) droppedFirst).trace).find?
              (wants (Trace.reschedule fault.1 fault.2)) =
          some fault.1 := by
    decide +kernel
  obtain ⟨schedules, accepted, twin, -⟩ :=
    replay_reproduces sampleSha256 (fun _ => .ok 0) 1 default
      [Trace.dropQuery none]
      (by simp only [List.mem_singleton, forall_eq]; rfl)
      (by simp) droppedFirst (by decide +kernel)
      (fun e s fault => meets (e, s) (Trace.mem_faults.mpr fault))
      (by decide +kernel)
  exact ⟨schedules, accepted, twin⟩

end Relay

end Pgfault
