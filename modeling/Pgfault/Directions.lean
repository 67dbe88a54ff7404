import Pgfault.EventOrder
import Pgfault.Replay

namespace Pgfault

open Queue ConnectionState

/-!
# The direction of an event

Three tables have to agree: the events a scenario may wait for, the ones
`validate` takes to travel upstream, and the names the observer raises at client
and at server frames.  They split the names in the same way, so a delay that
`validate` accepts holds back the frame it is meant for.
-/

/-- The direction of the frame behind a call. -/
def Call.direction : Call → Direction
  | .frontend _ => .upstream
  | .forwarded => .upstream
  | .backend _ => .downstream

/-- The direction of the frame one turn of the loop reads. -/
def Input.direction : Input → Option Direction
  | .client (.frame _) => some .upstream
  | .server (.frame _) => some .downstream
  | _ => none

/-- The direction `validate` takes an event to travel in. -/
def eventDirection (name : String) : Direction :=
  if name ∈ upstreamEvents then .upstream else .downstream

/-! ## The tables -/

theorem upstream_of_clientNames :
    ∀ name ∈ "query.forwarded" :: clientNames,
      name ∈ EVENTS ∧ name ∈ upstreamEvents := by
  decide

theorem downstream_of_serverNames :
    ∀ name ∈ serverNames, name ∈ EVENTS ∧ name ∉ upstreamEvents := by
  decide

namespace History

/-- A call raises names of its own direction only. -/
theorem called_direction
    (sha256 : Bytes → String)
    (s : ConnectionState)
    (call : Call) :
    ∀ e ∈ (called sha256 s call).1,
      e.event ∈ EVENTS ∧
        (e.event ∈ upstreamEvents ↔ call.direction = .upstream) := by
  intro e member
  have upstream (listed : e.event ∈ "query.forwarded" :: clientNames) :
      e.event ∈ EVENTS ∧ (e.event ∈ upstreamEvents ↔ True) := by
    obtain ⟨known, travels⟩ := upstream_of_clientNames _ listed
    exact ⟨known, iff_true_intro travels⟩
  cases call with
  | frontend f =>
      have listed := receive_clientNames sha256 s f _ (mem_frontend member).1
      simpa [Call.direction] using upstream (List.mem_cons_of_mem _ listed)
  | forwarded =>
      rw [List.mem_singleton.mp member] at upstream ⊢
      simpa [Call.direction] using upstream (List.mem_cons.mpr (Or.inl rfl))
  | backend f =>
      have listed := backendNames_serverNames s f _ (mem_backend member).1
      obtain ⟨known, travels⟩ := downstream_of_serverNames _ listed
      exact ⟨known, iff_of_false travels (by simp [Call.direction])⟩

/-- Some run raises a name at a frame of a direction. -/
def Raised
    (sha256 : Bytes → String)
    (direction : Direction)
    (name : String) : Prop :=
  ∃ (id : Nat) (startup : StartupMetadata) (calls : List Call) (call : Call),
    call.direction = direction ∧
      ∃ e ∈ (called sha256 ((new id startup).observe sha256 calls) call).1,
        e.event = name

theorem Raised.direction_eq
    {sha256 : Bytes → String}
    {direction : Direction}
    {name : String}
    (raised : Raised sha256 direction name) :
    direction = eventDirection name := by
  obtain ⟨id, startup, calls, call, rfl, e, member, rfl⟩ := raised
  have agrees := (called_direction sha256 _ call e member).2
  unfold eventDirection
  split
  · rename_i upstream
    exact agrees.mp upstream
  · rename_i other
    have unlike := fun upstream => other (agrees.mpr upstream)
    cases way : call.direction with
    | upstream =>
        exact absurd way unlike
    | downstream =>
        rfl

/-- The names some calls raise, each call with its direction. -/
def announced
    (sha256 : Bytes → String)
    (s : ConnectionState) : List Call → List (Direction × List String)
  | [] => []
  | call :: later =>
      (call.direction, (called sha256 s call).1.map Event.event) ::
        announced sha256 (called sha256 s call).2 later

theorem raised_of_announced
    {sha256 : Bytes → String}
    {id : Nat}
    {startup : StartupMetadata}
    {direction : Direction}
    {names : List String}
    {name : String}
    (member : name ∈ names)
    (before after : List Call)
    (listed :
      (direction, names) ∈
        announced sha256 ((new id startup).observe sha256 before) after) :
    Raised sha256 direction name := by
  induction after generalizing before with
  | nil =>
      simp [announced] at listed
  | cons call later inductionHypothesis =>
      rw [announced, List.mem_cons] at listed
      rcases listed with now | next
      · obtain ⟨rfl, rfl⟩ := Prod.mk.inj now
        obtain ⟨e, raised, named⟩ := List.mem_map.mp member
        exact ⟨id, startup, before, call, rfl, e, raised, named⟩
      · refine inductionHypothesis (before ++ [call]) ?_
        rw [ConnectionState.observe, Machine.run_append]
        exact next

/--
Short sessions that raise every known name: the begin of a transaction, its
commit, its rollback, a statement of its own with a row, and a failure.
-/
def everyEvent : List (List Call × List (Direction × List String)) :=
  [([.frontend (message 'Q' (ascii "BEGIN" ++ [0])),
      .forwarded,
      .backend (message 'Z' (ascii "T"))],
    [(.upstream, ["query.received", "statement.execution_started",
        "transaction.begin.requested"]),
      (.upstream, ["query.forwarded"]),
      (.downstream, ["backend.ready", "connection.ready"])]),
    ([.frontend (message 'Q' (ascii "COMMIT" ++ [0])),
      .backend (message 'C' (ascii "COMMIT" ++ [0])),
      .backend (message 'Z' (ascii "I"))],
    [(.upstream, ["query.received", "statement.execution_started",
        "transaction.commit.requested"]),
      (.downstream, ["backend.command_complete",
        "statement.execution_completed", "result.completed"]),
      (.downstream, ["backend.ready", "transaction.commit.completed",
        "connection.ready"])]),
    ([.frontend (message 'Q' (ascii "ROLLBACK" ++ [0])),
      .backend (message 'C' (ascii "ROLLBACK" ++ [0])),
      .backend (message 'Z' (ascii "I"))],
    [(.upstream, ["query.received", "statement.execution_started",
        "transaction.rollback.requested"]),
      (.downstream, ["backend.command_complete",
        "statement.execution_completed", "result.completed"]),
      (.downstream, ["backend.ready", "transaction.rollback.completed",
        "connection.ready"])]),
    ([.frontend (message 'Q' (ascii "SELECT 1" ++ [0])),
      .backend (message 'T' []),
      .backend (message 'D' []),
      .backend (message 'C' (ascii "SELECT 1" ++ [0])),
      .backend (message 'Z' (ascii "I"))],
    [(.upstream, ["query.received", "statement.execution_started"]),
      (.downstream, ["result.started"]),
      (.downstream, ["result.row"]),
      (.downstream, ["backend.command_complete",
        "statement.execution_completed", "result.completed"]),
      (.downstream, ["backend.ready", "transaction.implicit.completed",
        "connection.ready"])]),
    ([.frontend (message 'E' [0, 0, 0, 0, 0]),
      .frontend (message 'S' []),
      .backend (message 'E' []),
      .backend (message 'Z' (ascii "E"))],
    [(.upstream, ["frontend.execute", "statement.execution_started"]),
      (.upstream, ["frontend.sync"]),
      (.downstream, ["backend.error"]),
      (.downstream, ["backend.ready", "transaction.failed",
        "connection.ready"])])]

theorem announced_everyEvent
    (sha256 : Bytes → String) :
    ∀ session ∈ everyEvent,
      announced sha256 (new 1 default) session.1 = session.2 := by
  simp only [everyEvent, List.forall_mem_cons]
  refine ⟨?_, ?_, ?_, ?_, ?_, nofun⟩
  all_goals rfl

/-- Every known name is raised in one direction only. -/
theorem existsUnique_raised
    (sha256 : Bytes → String) :
    ∀ name ∈ EVENTS, ∃! direction, Raised sha256 direction name := by
  intro name known
  refine ⟨eventDirection name, ?_, fun _ raised => raised.direction_eq⟩
  have everyName :
      ∀ name ∈ EVENTS, ∃ session ∈ everyEvent, ∃ entry ∈ session.2,
        entry.1 = eventDirection name ∧ name ∈ entry.2 := by
    decide
  obtain ⟨session, sample, ⟨direction, names⟩, listed, rfl, member⟩ :=
    everyName name known
  rw [← announced_everyEvent sha256 session sample] at listed
  exact raised_of_announced member [] session.1 listed

end History

namespace Relay

section

variable (sha256 : Bytes → String) (parseDuration : String → Except String Nat)

/-- Forwarding a client frame fires matchers for `query.forwarded` only. -/
theorem forward_fires
    (r : Relay)
    (f : Frame)
    {i : Nat}
    {m n : Matcher}
    (before : r.matchers[i]? = some m)
    (after : (r.forward parseDuration f).matchers[i]? = some n)
    (unmarked : m.fired = false)
    (marked : n.fired = true) :
    m.scenario.when.event = "query.forwarded" := by
  unfold forward at after
  by_cases statement : f.frontendTag = .query ∨ f.frontendTag = .execute
  · simp only [if_pos statement] at after
    have applied :=
      apply_applies parseDuration
        { r with
          toServer := r.toServer ++ [f]
          state := r.state.forwarded.2 }
        ["query.forwarded"] [r.state.forwarded.1]
        (by
          intro e member
          rw [List.mem_singleton.mp member]
          exact List.mem_singleton.mpr rfl)
    refine List.mem_singleton.mp
      (applied.fires i m n before ?_ unmarked marked).1
    split at after
    · exact after
    · exact after
  · simp only [if_neg statement] at after
    rw [before, Option.some.injEq] at after
    subst after
    rw [unmarked] at marked
    cases marked

/-- A client frame fires matchers for upstream events only. -/
theorem clientFrame_fires
    (r : Relay)
    (f : Frame)
    {i : Nat}
    {m n : Matcher}
    (before : r.matchers[i]? = some m)
    (after : (r.clientFrame sha256 parseDuration f).matchers[i]? = some n)
    (unmarked : m.fired = false)
    (marked : n.fired = true) :
    m.scenario.when.event ∈ "query.forwarded" :: clientNames := by
  have applied :=
    apply_applies parseDuration
      { r with state := (r.state.frontend sha256 f).2 }
      clientNames (r.state.frontend sha256 f).1
      (fun e member =>
        receive_clientNames sha256 r.state f _ (mem_frontend member).1)
  unfold clientFrame at after
  simp only at after
  generalize
    apply parseDuration { r with state := (r.state.frontend sha256 f).2 }
        (r.state.frontend sha256 f).1 = shown at applied after
  -- A matcher that fires here fires at an event of the frame itself.
  have received (here : shown.1.matchers[i]? = some n) :
      m.scenario.when.event ∈ "query.forwarded" :: clientNames :=
    List.mem_cons_of_mem _ (applied.fires i m n before here unmarked marked).1
  by_cases failed : shown.1.exit.isSome = true
  · rw [if_pos failed] at after
    exact received after
  · rw [if_neg failed] at after
    by_cases disconnects : shown.2.disconnect = true
    · rw [if_pos disconnects] at after
      exact received after
    · rw [if_neg disconnects] at after
      have sent :
          (if shown.2.suppress then shown.1
            else shown.1.forward parseDuration f).matchers[i]? = some n := by
        generalize
          (if shown.2.suppress then shown.1
            else shown.1.forward parseDuration f) = t at after ⊢
        split at after
        · exact after
        · exact after
      by_cases suppresses : shown.2.suppress = true
      · rw [if_pos suppresses] at sent
        exact received sent
      · rw [if_neg suppresses] at sent
        have inside : i < shown.1.matchers.length := by
          rw [← applied.follows.length_eq]
          exact (List.getElem?_eq_some_iff.mp before).1
        have middle := List.getElem?_eq_getElem inside
        have follows := related_of_forall₂ applied.follows before middle
        generalize shown.1.matchers[i] = o at middle follows
        cases fired : o.fired with
        | true =>
            exact List.mem_cons_of_mem _
              (applied.fires i m o before middle unmarked fired).1
        | false =>
            have waits :=
              forward_fires parseDuration shown.1 f middle sent fired marked
            rw [← follows.scenario, waits]
            exact List.mem_cons_self

/-- A matcher fires at a frame that travels in the direction of its event. -/
theorem step_fires_direction
    (r : Relay)
    (input : Input)
    {i : Nat}
    {m n : Matcher}
    (before : r.matchers[i]? = some m)
    (after : (r.step sha256 parseDuration input).matchers[i]? = some n)
    (unmarked : m.fired = false)
    (marked : n.fired = true) :
    input.direction = some (eventDirection m.scenario.when.event) := by
  have changed (same : r.matchers[i]? = some n) : False := by
    rw [before, Option.some.injEq] at same
    subst same
    rw [unmarked] at marked
    cases marked
  unfold step at after
  by_cases exited : r.exit.isSome = true
  · rw [if_pos exited] at after
    exact (changed after).elim
  · rw [if_neg exited] at after
    match input with
    | .client (.frame f) =>
        have listed :=
          clientFrame_fires sha256 parseDuration r f before after unmarked
            marked
        rw [eventDirection, if_pos (upstream_of_clientNames _ listed).2]
        rfl
    | .server (.frame f) =>
        have turn := serverFrame_turn parseDuration r f
        have raised := (turn.fires i m n before after unmarked marked).1
        have listed := backendNames_serverNames r.state f _ raised
        rw [eventDirection, if_neg (downstream_of_serverNames _ listed).2]
        rfl
    | .client .eof =>
        exact (changed after).elim
    | .client (.error _) =>
        exact (changed after).elim
    | .server .eof =>
        exact (changed after).elim
    | .server (.error _) =>
        exact (changed after).elim

end

end Relay

/-- `validate` accepts a delay in the direction of the event only. -/
theorem Scenario.direction_of_valid
    {parseDuration : String → Except String Nat}
    {s : Scenario}
    (valid : s.validate parseDuration = .ok ())
    {delay : Delay}
    (delays : s.action.delay = some delay) :
    delay.direction = eventDirection s.when.event := by
  have accepted := (validate_iff.mp valid).delay delay delays
  unfold validateDelay at accepted
  split at accepted
  · cases accepted
  · split at accepted
    · cases accepted
    · split at accepted
      · cases accepted
      · rename_i same
        rw [not_not, decide_eq_decide] at same
        unfold eventDirection
        cases way : delay.direction <;> simp [way] at same ⊢ <;> exact same

/--
The tables of events agree.  Every call raises known names of its own direction,
every known name is raised in exactly one direction, and a scenario whose delay
`validate` accepts fires only while a frame of that direction is on its way.
-/
theorem directions_agree
    (sha256 : Bytes → String)
    (parseDuration : String → Except String Nat) :
    (∀ (id : Nat) (startup : StartupMetadata) (calls : List Call) (call : Call),
      ∀ e ∈ (History.called sha256 ((new id startup).observe sha256 calls)
          call).1,
        e.event ∈ EVENTS ∧
          (e.event ∈ upstreamEvents ↔ call.direction = .upstream)) ∧
    (∀ name ∈ EVENTS, ∃! direction, History.Raised sha256 direction name) ∧
    (∀ (id : Nat) (startup : StartupMetadata) (scenarios : List Scenario)
        (inputs : List Input) (input : Input) (i : Nat) (m n : Matcher)
        (delay : Delay),
      let r := (Relay.start id startup scenarios).run sha256 parseDuration inputs
      r.matchers[i]? = some m →
      (r.step sha256 parseDuration input).matchers[i]? = some n →
      m.fired = false →
      n.fired = true →
      m.scenario.validate parseDuration = .ok () →
      m.scenario.action.delay = some delay →
      input.direction = some delay.direction) := by
  refine ⟨?_, History.existsUnique_raised sha256, ?_⟩
  · intro id startup calls call
    exact History.called_direction sha256 _ call
  · intro id startup scenarios inputs input i m n delay r before after unmarked
      marked valid delays
    rw [Scenario.direction_of_valid valid delays]
    exact Relay.step_fires_direction sha256 parseDuration r input before after
      unmarked marked

/-- Hold the first query back for a second. -/
def slowQuery : Scenario where
  version := 1
  name := "slow query"
  when := { event := "query.received" }
  action := { delay := some ⟨.upstream, "1s"⟩ }

theorem directions_agree_slowQuery :
    let input := Input.client (.frame (message 'Q' (ascii "SELECT 1" ++ [0])))
    let r := (Relay.start 1 default [slowQuery]).run sampleSha256
      (fun _ => .ok (10 ^ 9)) []
    (r.step sampleSha256 (fun _ => .ok (10 ^ 9)) input).matchers[0]? =
        some ⟨slowQuery, 1, true⟩ ∧
      input.direction = some .upstream := by
  have fires :
      (((Relay.start 1 default [slowQuery]).run sampleSha256
        (fun _ => .ok (10 ^ 9)) []).step sampleSha256 (fun _ => .ok (10 ^ 9))
          (.client (.frame (message 'Q' (ascii "SELECT 1" ++ [0]))))).matchers[0]? =
        some ⟨slowQuery, 1, true⟩ := by
    decide +kernel
  refine ⟨fires, ?_⟩
  obtain ⟨-, -, delayed⟩ :=
    directions_agree sampleSha256 fun _ => .ok (10 ^ 9)
  exact delayed 1 default [slowQuery] [] _ 0 (Matcher.new slowQuery) _
    ⟨.upstream, "1s"⟩ rfl fires rfl rfl (by decide +kernel) rfl

end Pgfault
