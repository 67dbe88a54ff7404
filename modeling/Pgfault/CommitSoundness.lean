import Mathlib.Data.List.Perm.Subperm
import Pgfault.CycleHistory

namespace Pgfault

open Queue ConnectionState

/-!
# A reported commit is a real one

`transaction.commit.completed` is raised from the last statement and the last
command tag of the front cycle.  Over any run, with arbitrary frames in any
order, the history of the cycle bears the event out, no cycle completes twice,
and there are never more commits than commit requests.
-/

namespace ConnectionState

/-- Whether a name reports the end of a transaction. -/
def isCompletionName (name : String) : Bool :=
  name == "transaction.commit.completed" ||
    name == "transaction.rollback.completed" ||
    name == "transaction.implicit.completed"

/-- Everything that must hold for a completion event. -/
structure Completes
    (s : ConnectionState)
    (status : TxState)
    (name : String)
    (c : Cycle) : Prop where
  front : s.cycles.head? = some c
  idle : status = .idle
  succeeded : c.error = false
  reliable : s.reliable = true
  decided :
    (name = "transaction.commit.completed" ∧
        c.last.statementClass = .commit ∧ c.command = "COMMIT") ∨
      (name = "transaction.rollback.completed" ∧
        c.last.statementClass = .rollback ∧ c.command = "ROLLBACK") ∨
      (name = "transaction.implicit.completed" ∧
        c.last.statementClass ≠ .commit ∧
        c.last.statementClass ≠ .rollback ∧
        c.last.statementClass ≠ .other ∧
        s.txState = .idle ∧ c.command ≠ "")

/-- The decision table of `completed`, read from its result. -/
theorem completes_of_completed
    {s : ConnectionState}
    {status : TxState}
    {name : String}
    (decision : s.completed status = some name) :
    ∃ c, Completes s status name c := by
  unfold completed at decision
  cases front : s.cycles.head? with
  | none =>
      simp [front] at decision
  | some c =>
      simp only [front] at decision
      split at decision
      · cases decision
      · next clean =>
          simp only [ne_eq, not_or, not_not, Bool.not_eq_true] at clean
          obtain ⟨idle, succeeded, reliable⟩ := clean
          refine ⟨c, front, idle, succeeded, by simpa using reliable, ?_⟩
          cases kind : c.last.statementClass <;>
            simp only [kind] at decision
          case commit =>
            split at decision
            · next tag =>
                exact Or.inl ⟨(Option.some.inj decision).symm, rfl, tag⟩
            · cases decision
          case rollback =>
            split at decision
            · next tag =>
                exact Or.inr (Or.inl
                  ⟨(Option.some.inj decision).symm, rfl, tag⟩)
            · cases decision
          case other =>
            cases decision
          all_goals
            split at decision
            · next work =>
                exact Or.inr (Or.inr ⟨(Option.some.inj decision).symm,
                  by decide, by decide, by decide, work.1, work.2⟩)
            · cases decision

/-- The decision table of `completed`, read towards its result. -/
theorem Completes.completed
    {s : ConnectionState}
    {status : TxState}
    {name : String}
    {c : Cycle}
    (completes : Completes s status name c) :
    s.completed status = some name := by
  obtain ⟨front, idle, succeeded, reliable, decided⟩ := completes
  unfold ConnectionState.completed
  simp only [front, idle, succeeded, reliable]
  rcases decided with
      ⟨rfl, kind, tag⟩ | ⟨rfl, kind, tag⟩ |
        ⟨rfl, notCommit, notRollback, notOther, work, tagged⟩
  · simp [kind, tag]
  · simp [kind, tag]
  · cases kind : c.last.statementClass <;> simp_all

/-- The names a `ReadyForQuery` can raise. -/
def readyEvents : List String :=
  ["backend.ready", "transaction.failed", "transaction.commit.completed",
    "transaction.rollback.completed", "transaction.implicit.completed",
    "connection.ready"]

theorem mem_readyEvents
    {s : ConnectionState}
    {status : TxState}
    {name : String}
    (raised : name ∈ s.readyNames status ++ ["connection.ready"]) :
    name ∈ readyEvents := by
  simp only [readyNames, List.mem_append, List.mem_singleton,
    Option.mem_toList] at raised
  rcases raised with ((rfl | isFailed) | decision) | rfl
  · simp [readyEvents]
  · split at isFailed
    · rw [List.mem_singleton.mp isFailed]
      simp [readyEvents]
    · simp at isFailed
  · obtain ⟨c, completes⟩ := completes_of_completed decision
    rcases completes.decided with ⟨rfl, -⟩ | ⟨rfl, -⟩ | ⟨rfl, -⟩ <;>
      simp [readyEvents]
  · simp [readyEvents]

/-- Only a valid `ReadyForQuery` raises a completion event. -/
theorem completed_of_mem_backendNames
    {s : ConnectionState}
    {f : Frame}
    {name : String}
    (completion : isCompletionName name = true)
    (raised : name ∈ s.backendNames f) :
    ∃ status, readyStatus f = some status ∧
      s.completed status = some name := by
  unfold backendNames at raised
  cases tag : f.backendTag <;> simp only [tag] at raised
  case readyForQuery =>
    cases known : statusOf f.body with
    | none =>
        simp [known] at raised
    | some status =>
        refine ⟨status, by simp [readyStatus, tag, known], ?_⟩
        simp only [known, readyNames, List.mem_append] at raised
        rcases raised with ((isReady | isFailed) | decided) | isSettled
        · rw [List.mem_singleton.mp isReady] at completion
          cases completion
        · split at isFailed
          · rw [List.mem_singleton.mp isFailed] at completion
            cases completion
          · simp at isFailed
        · simpa using decided
        · rw [List.mem_singleton.mp isSettled] at completion
          cases completion
  all_goals
    simp only [List.mem_cons, List.not_mem_nil, or_false] at raised
  case commandComplete =>
    rcases raised with rfl | rfl | rfl <;> cases completion
  all_goals
    subst raised
    cases completion

end ConnectionState

namespace History

/-- How many cycles have ended. -/
def ended (s : ConnectionState) : Nat :=
  s.nextCycle - s.cycles.length

/-- The cycles whose completion the given events report. -/
def completionCycles (events : List Event) : List Nat :=
  (events.filter fun e => isCompletionName e.event).map Event.queryCycle

/-- The evidence behind one reported commit. -/
structure ConfirmedCommit
    (h : History)
    (f : Frame)
    (e : Event) : Prop where
  ready : f.backendTag = .readyForQuery
  idle : f.body = [73]
  front : frontId h.state = some e.queryCycle
  tag :
    ∃ x,
      lastComplete h.sinceFront = some x ∧
        text x.frame.body = some "COMMIT"
  noError : ∀ x ∈ h.sinceFront, x.frame.backendTag ≠ .errorResponse
  requested :
    ∃ statement,
      (e.queryCycle, statement) ∈ h.recorded ∧
        statement.statementClass = .commit

/-- The idle status has exactly one body. -/
theorem body_of_idle
    {f : Frame}
    (ready : readyStatus f = some .idle) :
    f.backendTag = .readyForQuery ∧ f.body = [73] := by
  unfold readyStatus at ready
  split at ready
  · next tag =>
      refine ⟨tag, ?_⟩
      unfold statusOf at ready
      split at ready
      all_goals first | assumption | cases ready
  · cases ready

/-- A commit event has its evidence in the history of the front cycle. -/
theorem CycleHistory.confirmedCommit
    {h : History}
    (history : CycleHistory h)
    {f : Frame}
    {e : Event}
    (member : e ∈ (h.state.backend f).1)
    (named : e.event = "transaction.commit.completed") :
    ConfirmedCommit h f e := by
  obtain ⟨raised, located, -, -⟩ := mem_backend member
  rw [named] at raised
  obtain ⟨status, ready, decision⟩ :=
    completed_of_mem_backendNames rfl raised
  obtain ⟨c, front, idle, succeeded, -, decided⟩ :=
    completes_of_completed decision
  obtain ⟨-, kind, command⟩ :
      "transaction.commit.completed" = "transaction.commit.completed" ∧
        c.last.statementClass = .commit ∧ c.command = "COMMIT" := by
    rcases decided with commit | ⟨wrong, -⟩ | ⟨wrong, -⟩
    · exact commit
    · exact absurd wrong (by decide)
    · exact absurd wrong (by decide)
  have cycleNumber : e.queryCycle = c.id := by
    have same := congrArg Coordinates.queryCycle located
    simpa [Event.coordinates, ConnectionState.coordinates, referenced,
      front] using same
  have frontHistory := history.front c front
  subst idle
  refine ⟨(body_of_idle ready).1, (body_of_idle ready).2, ?_, ?_, ?_, ?_⟩
  · simp [frontId, front, cycleNumber]
  · have stored := frontHistory.command
    rw [command] at stored
    cases latest : lastComplete h.sinceFront with
    | none =>
        rw [latest] at stored
        exact absurd stored (by decide)
    | some x =>
        refine ⟨x, rfl, ?_⟩
        rw [latest, Option.bind_some] at stored
        cases tag : text x.frame.body with
        | none =>
            rw [tag] at stored
            exact absurd stored (by decide)
        | some read =>
            rw [tag, Option.getD_some] at stored
            rw [stored]
  · intro x inHistory failed
    have marked := frontHistory.error.mpr ⟨x, inHistory, failed⟩
    rw [succeeded] at marked
    cases marked
  · rw [cycleNumber]
    rcases history.last c (List.mem_of_mem_head? front) with unset | noted
    · rw [unset] at kind
      cases kind
    · exact ⟨c.last, noted, kind⟩

/-- Client calls report no completion. -/
theorem receive_no_completion
    (sha256 : Bytes → String)
    (s : ConnectionState)
    (f : Frame) :
    ∀ name ∈ (s.receive sha256 f).2, isCompletionName name = false := by
  have statement (leading : String) (kind : StatementClass)
      (harmless : isCompletionName leading = false) :
      ∀ name ∈ [leading, "statement.execution_started"] ++ requested kind,
        isCompletionName name = false := by
    intro name member
    simp only [List.cons_append, List.nil_append, List.mem_cons] at member
    rcases member with rfl | rfl | isRequest
    · exact harmless
    · rfl
    · cases kind <;>
        simp only [requested, List.mem_singleton, List.not_mem_nil]
          at isRequest <;>
        subst isRequest <;> rfl
  unfold receive
  cases f.frontendTag with
  | query =>
      exact statement "query.received" _ rfl
  | execute =>
      exact statement "frontend.execute" _ rfl
  | sync =>
      intro name member
      rw [List.mem_singleton.mp member]
      rfl
  | _ =>
      simp

theorem completionCycles_append
    (earlier later : List Event) :
    completionCycles (earlier ++ later) =
      completionCycles earlier ++ completionCycles later := by
  simp [completionCycles]

/-- Events that agree on their cycle, filtered by name. -/
theorem completionCycles_eq
    {events : List Event}
    {number : Nat}
    (same : ∀ e ∈ events, e.queryCycle = number) :
    completionCycles events =
      ((events.map Event.event).filter isCompletionName).map
        fun _ => number := by
  induction events with
  | nil =>
      rfl
  | cons e rest inductionHypothesis =>
      have tail := inductionHypothesis fun x member => same x (by simp [member])
      have head := same e (by simp)
      unfold completionCycles at tail ⊢
      by_cases completion : isCompletionName e.event = true
      · simp [completion, head, tail]
      · simp [completion, tail]

/-- The completion names of one server frame. -/
theorem filter_backendNames
    (s : ConnectionState)
    (f : Frame) :
    (s.backendNames f).filter isCompletionName =
      ((readyStatus f).bind s.completed).toList := by
  have decidedName (status : TxState) :
      (s.completed status).toList.filter isCompletionName =
        (s.completed status).toList := by
    cases decision : s.completed status with
    | none =>
        rfl
    | some name =>
        obtain ⟨c, completes⟩ := completes_of_completed decision
        rcases completes.decided with ⟨rfl, -⟩ | ⟨rfl, -⟩ | ⟨rfl, -⟩ <;> rfl
  unfold backendNames readyStatus
  cases f.backendTag with
  | readyForQuery =>
      cases statusOf f.body with
      | none =>
          rfl
      | some status =>
          simp only [readyNames, List.filter_append, decidedName]
          split <;> simp [isCompletionName]
  | _ =>
      rfl

/-- What the events raised so far say about the ended cycles. -/
structure Reported (h : History) : Prop where
  increasing : (completionCycles h.raised).Pairwise (· < ·)
  past : ∀ number ∈ completionCycles h.raised, number ≤ ended h.state
  requested :
    ∀ e ∈ h.raised,
      e.event = "transaction.commit.completed" →
      ∃ statement,
        (e.queryCycle, statement) ∈ h.recorded ∧
          statement.statementClass = .commit

theorem reported_start
    (id : Nat)
    (startup : StartupMetadata) :
    Reported (start id startup) where
  increasing := by simp [start, completionCycles]
  past := by simp [start, completionCycles]
  requested := by simp [start]

/-- A call without completion events changes nothing that is reported. -/
theorem Reported.of_silent
    {h t : History}
    (reported : Reported h)
    (events : List Event)
    (records : List (Nat × Statement))
    (raised : t.raised = h.raised ++ events)
    (recorded : t.recorded = h.recorded ++ records)
    (silent : ∀ e ∈ events, isCompletionName e.event = false)
    (notLess : ended h.state ≤ ended t.state) :
    Reported t := by
  have sameCycles : completionCycles t.raised = completionCycles h.raised := by
    have nothing : completionCycles events = [] := by
      unfold completionCycles
      rw [List.map_eq_nil_iff, List.filter_eq_nil_iff]
      intro e member
      simp [silent e member]
    rw [raised, completionCycles_append, nothing, List.append_nil]
  refine ⟨?_, ?_, ?_⟩
  · rw [sameCycles]
    exact reported.increasing
  · rw [sameCycles]
    intro number member
    exact Nat.le_trans (reported.past number member) notLess
  · intro e member named
    rw [raised] at member
    rcases List.mem_append.mp member with earlier | now
    · obtain ⟨statement, noted, kind⟩ := reported.requested e earlier named
      refine ⟨statement, ?_, kind⟩
      rw [recorded]
      exact List.mem_append_left _ noted
    · have notCompletion := silent e now
      rw [named] at notCompletion
      cases notCompletion

/-- Growth at the back ends no cycle. -/
theorem ended_of_grows
    {s t : ConnectionState}
    (numbered : Numbered s)
    (grown : QueueGrows s t) :
    ended t = ended s := by
  have bound := numbered.bound
  unfold ended
  rcases grown.queue with ⟨same, queue⟩ | ⟨extended, pushed, queue⟩
  · rw [same, queue.length_eq]
  · have length := queue.length_eq
    simp only [List.length_append, List.length_singleton] at length
    omega

/-- A server frame ends the front cycle or none. -/
theorem ended_advance
    (s : ConnectionState)
    (f : Frame) :
    ended s ≤ ended (s.advance f) := by
  unfold ended
  rw [advance_nextCycle]
  cases ready : readyStatus f with
  | none =>
      rw [advance_cycles_of_open s ready, length_modifyFront]
  | some status =>
      rw [advance_cycles_of_ready s ready, List.length_tail]
      omega

/-- The counters play no part in what has ended. -/
theorem ended_recount
    (s : ConnectionState)
    (counters : String → Nat) :
    ended (s.recount counters) = ended s := rfl

/-- No call takes an ended cycle back. -/
theorem ended_called
    {s : ConnectionState}
    (numbered : Numbered s)
    (sha256 : Bytes → String)
    (call : Call) :
    ended s ≤ ended (called sha256 s call).2 := by
  cases call with
  | frontend f =>
      rw [called, frontend_state, ended_recount,
        ended_of_grows numbered (accept_grows sha256 s f)]
  | forwarded =>
      exact Nat.le_refl _
  | backend f =>
      rw [called, backend_state, ended_recount]
      exact ended_advance s f

/-- A server frame reports at most the cycle it ends. -/
theorem Reported.backend
    {sha256 : Bytes → String}
    {h : History}
    (reported : Reported h)
    (history : CycleHistory h)
    (f : Frame) :
    Reported (h.step sha256 (.backend f)) := by
  have bound := history.numbered.bound
  have state :
      (h.step sha256 (.backend f)).state =
        (h.state.advance f).recount (h.state.backend f).2.counters :=
    backend_state h.state f
  have endedAfter :
      ended (h.step sha256 (.backend f)).state =
        h.state.nextCycle - (h.state.advance f).cycles.length := by
    simp [ended, state]
  have notLess := ended_called history.numbered sha256 (.backend f)
  cases decision : (readyStatus f).bind h.state.completed with
  | none =>
      refine reported.of_silent (h.state.backend f).1 [] rfl rfl ?_ notLess
      intro e member
      obtain ⟨raised, -⟩ := mem_backend member
      by_contra completion
      rw [Bool.not_eq_false] at completion
      have filtered :=
        List.mem_filter.mpr ⟨raised, completion⟩
      rw [filter_backendNames, decision] at filtered
      simp at filtered
  | some name =>
      obtain ⟨status, ready, decided⟩ := Option.bind_eq_some_iff.mp decision
      obtain ⟨c, completes⟩ := completes_of_completed decided
      have front := completes.front
      have number := history.numbered.front_id front
      have nonempty : h.state.cycles ≠ [] := by
        intro empty
        rw [empty] at front
        cases front
      have length : 0 < h.state.cycles.length :=
        List.length_pos_iff.mpr nonempty
      have endedNext :
          ended (h.step sha256 (.backend f)).state = c.id := by
        rw [endedAfter, advance_cycles_of_ready h.state ready,
          List.length_tail, number]
        omega
      have same : ∀ e ∈ (h.state.backend f).1, e.queryCycle = c.id := by
        intro e member
        obtain ⟨-, located, -⟩ := mem_backend member
        have sameCycle := congrArg Coordinates.queryCycle located
        simpa [Event.coordinates, ConnectionState.coordinates, referenced,
          front] using sameCycle
      have oneCycle :
          completionCycles (h.step sha256 (.backend f)).raised =
            completionCycles h.raised ++ [c.id] := by
        have appended :
            (h.step sha256 (.backend f)).raised =
              h.raised ++ (h.state.backend f).1 := rfl
        rw [appended, completionCycles_append, completionCycles_eq same,
          backend_names, filter_backendNames, decision]
        rfl
      refine ⟨?_, ?_, ?_⟩
      · rw [oneCycle, List.pairwise_append]
        refine ⟨reported.increasing, List.pairwise_singleton _ _, ?_⟩
        intro earlier member latest isLatest
        rw [List.mem_singleton.mp isLatest]
        have past := reported.past earlier member
        unfold ended at past
        omega
      · rw [oneCycle, endedNext]
        intro earlier member
        rcases List.mem_append.mp member with old | new
        · have past := reported.past earlier old
          unfold ended at past
          omega
        · exact Nat.le_of_eq (List.mem_singleton.mp new)
      · intro e member named
        have kept : (h.step sha256 (.backend f)).recorded = h.recorded :=
          List.append_nil _
        rw [kept]
        rcases List.mem_append.mp member with earlier | now
        · exact reported.requested e earlier named
        · exact (history.confirmedCommit now named).requested

theorem Reported.step
    {sha256 : Bytes → String}
    {h : History}
    (reported : Reported h)
    (history : CycleHistory h)
    (call : Call) :
    Reported (h.step sha256 call) := by
  cases call with
  | frontend f =>
      refine reported.of_silent (h.state.frontend sha256 f).1
        (recording sha256 h.state (.frontend f)) rfl rfl ?_ ?_
      · intro e member
        exact receive_no_completion sha256 h.state f e.event
          (mem_frontend member).1
      · exact ended_called history.numbered sha256 (.frontend f)
  | forwarded =>
      refine reported.of_silent [h.state.forwarded.1] [] rfl rfl ?_
        (Nat.le_refl _)
      intro e member
      rw [List.mem_singleton.mp member]
      rfl
  | backend f =>
      exact reported.backend history f

/-- After every run the reported completions are borne out. -/
theorem reported_run
    (sha256 : Bytes → String)
    (id : Nat)
    (startup : StartupMetadata)
    (calls : List Call) :
    Reported (run sha256 id startup calls) := by
  have keeps :
      ∀ h call,
        CycleHistory h ∧ Reported h →
        CycleHistory (h.step sha256 call) ∧ Reported (h.step sha256 call) := by
    intro h call invariant
    exact ⟨invariant.1.step call, invariant.2.step invariant.1 call⟩
  exact (Machine.run_invariant keeps
    ⟨cycleHistory_start id startup, reported_start id startup⟩ calls).2

/--
Soundness of `transaction.commit.completed` over whole runs.  After any list of
calls, a call that raises the event handles an idle `ReadyForQuery` whose front
cycle has the evidence for it; no cycle has completed twice; and there are at
most as many commits as statements recorded as commits.
-/
theorem commit_completed_sound
    (sha256 : Bytes → String)
    (id : Nat)
    (startup : StartupMetadata)
    (calls : List Call) :
    (∀ call e,
        e ∈ (called sha256 (run sha256 id startup calls).state call).1 →
        e.event = "transaction.commit.completed" →
        ∃ f,
          call = .backend f ∧
            ConfirmedCommit (run sha256 id startup calls) f e) ∧
      (completionCycles (run sha256 id startup calls).raised).Nodup ∧
      (run sha256 id startup calls).raised.countP
          (fun e => e.event == "transaction.commit.completed") ≤
        (run sha256 id startup calls).recorded.countP
          (fun entry => entry.2.statementClass == .commit) := by
  have history := cycleHistory_run sha256 id startup calls
  have reported := reported_run sha256 id startup calls
  generalize run sha256 id startup calls = h at history reported ⊢
  have noRepeat : (completionCycles h.raised).Nodup :=
    reported.increasing.imp Nat.ne_of_lt
  refine ⟨?_, noRepeat, ?_⟩
  · intro call e member named
    cases call with
    | frontend f =>
        have harmless :=
          receive_no_completion sha256 h.state f e.event
            (mem_frontend member).1
        rw [named] at harmless
        cases harmless
    | forwarded =>
        have raised : e = h.state.forwarded.1 := List.mem_singleton.mp member
        rw [raised] at named
        have wrong : "query.forwarded" = "transaction.commit.completed" :=
          named
        exact absurd wrong (by decide)
    | backend f =>
        exact ⟨f, rfl, history.confirmedCommit member named⟩
  · -- Commit events name distinct cycles, and each of those recorded a commit.
    let commits :=
      (h.raised.filter fun e => e.event == "transaction.commit.completed").map
        Event.queryCycle
    let requests :=
      (h.recorded.filter fun entry => entry.2.statementClass == .commit).map
        Prod.fst
    have isSublist : commits.Sublist (completionCycles h.raised) := by
      refine List.Sublist.map _ ?_
      refine List.monotone_filter_right _ ?_
      intro e named
      simp only [beq_iff_eq] at named
      simp [isCompletionName, named]
    have isSubset : commits ⊆ requests := by
      intro number member
      obtain ⟨e, filtered, rfl⟩ := List.mem_map.mp member
      obtain ⟨raised, named⟩ := List.mem_filter.mp filtered
      obtain ⟨statement, noted, kind⟩ :=
        reported.requested e raised (by simpa using named)
      exact List.mem_map.mpr ⟨(e.queryCycle, statement),
        List.mem_filter.mpr ⟨noted, by simp [kind]⟩, rfl⟩
    have counted : commits.length ≤ requests.length :=
      (List.subperm_of_subset (noRepeat.sublist isSublist)
        isSubset).length_le
    simpa [commits, requests, List.countP_eq_length_filter] using counted

end History

end Pgfault
