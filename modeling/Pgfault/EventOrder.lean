import Pgfault.CommitSoundness
import Pgfault.PipelineAlignment

namespace Pgfault

open Queue ConnectionState

/-!
# The events of a run in order

Cycle numbers only grow, the executions of a cycle are counted, and a cycle is
sealed once.  So two client frames never raise one name at the same coordinates.
The number of the connection stays, and so do its parameters, except for the
application name, which the server may set but not take away.
-/

/-- What an event of a connection knows of a later one. -/
structure Before (a b : Event) : Prop where
  connectionId : a.connectionId = b.connectionId
  user : a.startup.user = b.startup.user
  database : a.startup.database = b.startup.database
  applicationName :
    b.startup.applicationName = none → a.startup.applicationName = none

/-! ## The events of a run -/

namespace ConnectionState

/-- The rest of what a raised event says of the state. -/
theorem mem_events_rest
    {s : ConnectionState}
    {front : Bool}
    {names : List String}
    {e : Event}
    (member : e ∈ (s.events front names).1) :
    e.connectionId = s.id ∧ e.startup = s.startup ∧
      e.rowIndex =
        if e.event = "result.row" then (s.referenced front).map Cycle.rows
        else none := by
  induction names generalizing s with
  | nil =>
      simp [events] at member
  | cons name rest inductionHypothesis =>
      simp only [events, List.mem_cons] at member
      rcases member with isFirst | inRest
      · subst e
        exact ⟨rfl, rfl, rfl⟩
      · have later := inductionHypothesis inRest
        exact later

/-- The names client frames raise. -/
def clientNames : List String :=
  ["query.received", "statement.execution_started",
    "transaction.begin.requested", "transaction.commit.requested",
    "transaction.rollback.requested", "frontend.execute", "frontend.sync"]

/-- The names server frames raise. -/
def serverNames : List String :=
  ["result.started", "result.row", "backend.command_complete",
    "statement.execution_completed", "result.completed", "backend.error"] ++
    readyEvents

theorem requested_clientNames (c : StatementClass) :
    ∀ name ∈ requested c, name ∈ clientNames := by
  cases c <;> decide

theorem receive_clientNames
    (sha256 : Bytes → String)
    (s : ConnectionState)
    (f : Frame) :
    ∀ name ∈ (s.receive sha256 f).2, name ∈ clientNames := by
  intro name raised
  have listed (first second : String) (c : StatementClass)
      (known : first ∈ clientNames ∧ second ∈ clientNames)
      (raised : name ∈ [first, second] ++ requested c) :
      name ∈ clientNames := by
    rcases List.mem_append.mp raised with early | asked
    · simp only [List.mem_cons, List.not_mem_nil, or_false] at early
      rcases early with rfl | rfl
      · exact known.1
      · exact known.2
    · exact requested_clientNames c name asked
  unfold receive at raised
  cases tag : f.frontendTag <;> simp only [tag] at raised
  case query =>
    exact listed _ _ _ (by decide) raised
  case execute =>
    exact listed _ _ _ (by decide) raised
  case sync =>
    rw [List.mem_singleton.mp raised]
    decide
  all_goals simp at raised

theorem backendNames_serverNames
    (s : ConnectionState)
    (f : Frame) :
    ∀ name ∈ s.backendNames f, name ∈ serverNames := by
  intro name raised
  unfold backendNames at raised
  cases tag : f.backendTag <;> simp only [tag] at raised
  case readyForQuery =>
    split at raised
    · exact List.mem_append_right _ (mem_readyEvents raised)
    · simp at raised
  all_goals
    simp only [List.mem_cons, List.not_mem_nil, or_false] at raised
  case commandComplete =>
    rcases raised with rfl | rfl | rfl <;> decide
  all_goals
    subst raised
    decide

/-- What an event of a server frame says of the state before the frame. -/
theorem mem_backend_rest
    {s : ConnectionState}
    {f : Frame}
    {e : Event}
    (member : e ∈ (s.backend f).1) :
    e.connectionId = s.id ∧ e.startup = s.startup ∧
      e.rowIndex =
        if e.event = "result.row" then
          s.cycles.head?.map fun c => c.rows + 1
        else none := by
  have other {t : ConnectionState} {names : List String}
      (same : t.id = s.id ∧ t.startup = s.startup)
      (silent : "result.row" ∉ names)
      (member : e ∈ (t.events false names).1) :
      e.connectionId = s.id ∧ e.startup = s.startup ∧
        e.rowIndex =
          if e.event = "result.row" then
            s.cycles.head?.map fun c => c.rows + 1
          else none := by
    obtain ⟨id, startup, row⟩ := mem_events_rest member
    have named := (mem_events member).1
    have unlike : e.event ≠ "result.row" := fun isRow => silent (isRow ▸ named)
    rw [if_neg unlike] at row ⊢
    exact ⟨id.trans same.1, startup.trans same.2, row⟩
  unfold backend at member
  cases tag : f.backendTag <;> simp only [tag] at member
  case dataRow =>
    obtain ⟨id, startup, row⟩ := mem_events_rest member
    have named := (mem_events member).1
    rw [List.mem_singleton] at named
    refine ⟨id, startup, ?_⟩
    rw [row, named, if_pos rfl, if_pos rfl]
    simp [referenced, Function.comp_def]
  case readyForQuery =>
    split at member
    · rcases List.mem_append.mp member with early | late
      · refine other ⟨rfl, rfl⟩ ?_ early
        intro isRow
        exact absurd (mem_readyEvents (List.mem_append_left _ isRow))
          (by decide)
      · refine other ?_ (by decide) late
        rw [events_state]
        exact ⟨rfl, rfl⟩
    · simp at member
  all_goals
    first
      | exact other (by exact ⟨rfl, rfl⟩) (by decide) member
      | simp at member

/-- What a call leaves of the parameters of a connection. -/
structure Keeps (s t : ConnectionState) : Prop where
  id : t.id = s.id
  user : t.startup.user = s.startup.user
  database : t.startup.database = s.startup.database
  applicationName :
    t.startup.applicationName = none → s.startup.applicationName = none

theorem Keeps.of_same
    {s t : ConnectionState}
    (id : t.id = s.id)
    (startup : t.startup = s.startup) :
    Keeps s t :=
  ⟨id, by rw [startup], by rw [startup], by rw [startup]; exact fun none => none⟩

theorem cycle_identity
    (s : ConnectionState)
    (extended : Bool)
    (update : Cycle → Cycle) :
    (s.cycle extended update).id = s.id ∧
      (s.cycle extended update).startup = s.startup := by
  unfold cycle openCycle
  split <;> exact ⟨rfl, rfl⟩

theorem openCycle_identity
    (s : ConnectionState)
    (extended : Bool) :
    (s.openCycle extended).id = s.id ∧
      (s.openCycle extended).startup = s.startup := by
  rw [openCycle_eq_cycle]
  exact cycle_identity s extended _

/-- Client frames change neither the number nor the parameters. -/
theorem accept_identity
    (sha256 : Bytes → String)
    (s : ConnectionState)
    (f : Frame) :
    (s.accept sha256 f).id = s.id ∧
      (s.accept sha256 f).startup = s.startup := by
  have received :
      (s.receive sha256 f).1.id = s.id ∧
        (s.receive sha256 f).1.startup = s.startup := by
    unfold receive
    cases f.frontendTag with
    | parse =>
        unfold receiveParse
        simp only [openCycle_identity]
        split
        · split
          · exact cycle_identity _ _ _
          · exact ⟨rfl, rfl⟩
        · exact ⟨rfl, rfl⟩
    | bind =>
        unfold receiveBind
        simp only [openCycle_identity]
        split
        · split
          · split
            · exact cycle_identity _ _ _
            · exact ⟨rfl, rfl⟩
          · exact ⟨rfl, rfl⟩
        · exact ⟨rfl, rfl⟩
    | close =>
        simp only [receiveClose]
        split
        · exact ⟨rfl, rfl⟩
        · rename_i kind rest _
          split
          · rename_i name _ _
            have queued :=
              cycle_identity s true (Cycle.queue (.close kind name))
            split
            · exact queued
            · split
              · exact queued
              · exact queued
          · exact ⟨rfl, rfl⟩
    | query =>
        exact cycle_identity _ _ _
    | execute =>
        exact cycle_identity _ _ _
    | sync =>
        exact cycle_identity _ _ _
    | _ =>
        exact ⟨rfl, rfl⟩
  unfold accept allocateEpoch
  split
  · exact received
  · exact received

/-- A server can set the application name but not take it away. -/
theorem parameterStatus_keeps
    (s : ConnectionState)
    (body : Bytes) :
    Keeps s (s.parameterStatus body) := by
  unfold parameterStatus
  split
  · split
    · split
      · exact ⟨rfl, rfl, rfl, nofun⟩
      · exact Keeps.of_same rfl rfl
    · exact Keeps.of_same rfl rfl
  · exact Keeps.of_same rfl rfl

theorem advance_keeps
    (s : ConnectionState)
    (f : Frame) :
    Keeps s (s.advance f) := by
  have acknowledged (tag : BackendTag) : Keeps s (s.acknowledge tag) := by
    unfold acknowledge
    rw [confirm_eq]
    exact Keeps.of_same rfl rfl
  unfold advance
  cases f.backendTag with
  | parameterStatus =>
      exact parameterStatus_keeps s f.body
  | parseComplete =>
      exact acknowledged _
  | bindComplete =>
      exact acknowledged _
  | closeComplete =>
      exact acknowledged _
  | readyForQuery =>
      cases statusOf f.body with
      | none =>
          exact Keeps.of_same rfl rfl
      | some status =>
          simp only [endCycle]
          split <;> split <;> exact Keeps.of_same rfl rfl
  | _ =>
      exact Keeps.of_same rfl rfl

/-! ## Client events are told apart -/

/-- The back cycle behind a client frame that works on it. -/
theorem accept_back
    (sha256 : Bytes → String)
    (s : ConnectionState)
    {f : Frame}
    {how : Touch}
    (touches : touch f = some how) :
    ∃ c, (s.accept sha256 f).cycles.getLast? = some c ∧
      c.sealed = (!how.extended || how.seals) ∧
      ((s.accept sha256 f).nextCycle = s.nextCycle + 1 ∨
        (s.accept sha256 f).nextCycle = s.nextCycle ∧
          ∃ back, s.cycles.getLast? = some back ∧ back.sealed = false ∧
            c.executions =
              back.executions + (s.noted sha256 f).length) := by
  have marked :
      ∀ c, (s.receive sha256 f).1.cycles.getLast? = some c →
        ∃ d, (s.accept sha256 f).cycles.getLast? = some d ∧
          d.sealed = c.sealed ∧ d.executions = c.executions := by
    intro c back
    unfold accept
    rcases allocateEpoch_cycles (s.receive sha256 f).1 f with same | marks
    · exact ⟨c, by rw [same]; exact back, rfl, rfl⟩
    · rw [marks]
      rcases eq_nil_or_concat (s.receive sha256 f).1.cycles with
          empty | ⟨earlier, last, shape⟩
      · simp [empty] at back
      · rw [shape, List.getLast?_concat, Option.some.injEq] at back
        subst back
        rw [shape]
        cases earlier with
        | nil =>
            exact ⟨markEpoch last, rfl, rfl, rfl⟩
        | cons first rest =>
            refine ⟨last, ?_, rfl, rfl⟩
            rw [List.cons_append, modifyFront_cons, ← List.cons_append,
              List.getLast?_concat]
  have nextCycle :
      (s.accept sha256 f).nextCycle = (s.receive sha256 f).1.nextCycle := by
    unfold accept allocateEpoch
    split <;> rfl
  rcases (receive_receives sha256 s f).queue with
      ⟨untouched, -⟩ | ⟨use, update, touched, updates, cycles, next⟩
  · rw [touches] at untouched
    cases untouched
  · rw [touches, Option.some.injEq] at touched
    subst touched
    rw [nextCycle, next]
    unfold openCycle at cycles ⊢
    by_cases starts : s.startsCycle how.extended = true
    · rw [if_pos starts] at cycles ⊢
      rw [modifyBack_concat] at cycles
      obtain ⟨d, back, sealed, -⟩ :=
        marked _ (by rw [cycles, List.getLast?_concat])
      refine ⟨d, back, ?_, Or.inl rfl⟩
      rw [sealed, updates.sealed]
    · rw [if_neg starts] at cycles ⊢
      rcases eq_nil_or_concat s.cycles with empty | ⟨earlier, last, shape⟩
      · simp [startsCycle, empty] at starts
      · rw [shape, modifyBack_concat] at cycles
        obtain ⟨d, back, sealed, executions⟩ :=
          marked _ (by rw [cycles, List.getLast?_concat])
        simp only [startsCycle, shape, List.getLast?_concat, Option.all_some,
          Bool.or_eq_true, Bool.not_eq_true', not_or, Bool.not_eq_false,
          Bool.not_eq_true] at starts
        refine ⟨d, back, ?_, Or.inr ⟨rfl, last, by rw [shape]; simp,
          starts.2, ?_⟩⟩
        · rw [sealed, updates.sealed, starts.2, starts.1]
          rfl
        · rw [executions, updates.executions]

/-- A client frame that works on no cycle leaves the queue alone. -/
theorem accept_untouched
    (sha256 : Bytes → String)
    (s : ConnectionState)
    {f : Frame}
    (untouched : touch f = none) :
    (s.accept sha256 f).cycles = s.cycles ∧
      (s.accept sha256 f).nextCycle = s.nextCycle := by
  have silent : s.accept sha256 f = (s.receive sha256 f).1 := by
    unfold accept allocateEpoch allocatesEpoch
    refine if_neg ?_
    unfold touch at untouched
    cases tag : f.frontendTag <;> simp [tag] at untouched ⊢
  rw [silent]
  rcases (receive_receives sha256 s f).queue with
      ⟨-, -, cycles, next⟩ | ⟨_, _, touched, -⟩
  · exact ⟨cycles, next⟩
  · rw [untouched] at touched
    cases touched

/-- The back cycle behind a server frame is an old one. -/
theorem advance_back
    {s : ConnectionState}
    {f : Frame}
    {c : Cycle}
    (back : (s.advance f).cycles.getLast? = some c) :
    ∃ d, s.cycles.getLast? = some d ∧ ClientPart d c := by
  cases ready : readyStatus f with
  | some status =>
      rw [advance_cycles_of_ready s ready] at back
      cases queue : s.cycles with
      | nil =>
          simp [queue] at back
      | cons first rest =>
          rw [queue, List.tail_cons] at back
          refine ⟨c, ?_, ⟨rfl, rfl, rfl, rfl⟩⟩
          rw [List.getLast?_cons, back]
          rfl
  | none =>
      rw [advance_cycles_of_open s ready] at back
      cases queue : s.cycles with
      | nil =>
          simp [queue] at back
      | cons first rest =>
          rw [queue, modifyFront_cons] at back
          cases rest with
          | nil =>
              simp only [List.getLast?_singleton, Option.some.injEq] at back
              subst back
              exact ⟨first, rfl, answer_clientPart f first⟩
          | cons second later =>
              refine ⟨c, ?_, ⟨rfl, rfl, rfl, rfl⟩⟩
              rw [List.getLast?_cons_cons] at back ⊢
              exact back

/-- Two client events of one name have different coordinates. -/
def Apart (a b : Event) : Prop :=
  a.event ∈ clientNames → a.event = b.event → a.queryCycle = b.queryCycle →
    a.statementIndex ≠ b.statementIndex

/-- What the state of a connection still shows of an event. -/
structure Stamped (t : ConnectionState) (a : Event) : Prop where
  connectionId : a.connectionId = t.id
  user : a.startup.user = t.startup.user
  database : a.startup.database = t.startup.database
  applicationName :
    t.startup.applicationName = none → a.startup.applicationName = none
  cycle : a.event ∈ clientNames → a.queryCycle ≤ t.nextCycle
  back :
    a.event ∈ clientNames → a.queryCycle = t.nextCycle →
      ∀ c, t.cycles.getLast? = some c →
        (a.event = "frontend.sync" → c.sealed = true) ∧
          (a.event ≠ "frontend.sync" → a.statementIndex ≤ c.executions)

theorem Stamped.recount
    {t : ConnectionState}
    {a : Event}
    (stamped : Stamped t a)
    (counters : String → Nat) :
    Stamped (t.recount counters) a :=
  ⟨stamped.connectionId, stamped.user, stamped.database,
    stamped.applicationName, stamped.cycle, stamped.back⟩

/-- Server frames leave every stamp readable. -/
theorem Stamped.advance
    {t : ConnectionState}
    {a : Event}
    (stamped : Stamped t a)
    (f : Frame) :
    Stamped (t.advance f) a := by
  have keeps := advance_keeps t f
  refine ⟨stamped.connectionId.trans keeps.id.symm,
    stamped.user.trans keeps.user.symm,
    stamped.database.trans keeps.database.symm,
    fun none => stamped.applicationName (keeps.applicationName none), ?_, ?_⟩
  · rw [advance_nextCycle]
    exact stamped.cycle
  · rw [advance_nextCycle]
    intro client current c back
    obtain ⟨d, oldBack, part⟩ := advance_back back
    obtain ⟨sealed, executed⟩ := stamped.back client current d oldBack
    rw [part.sealed, part.executions]
    exact ⟨sealed, executed⟩

/-- So do client frames. -/
theorem Stamped.accept
    {t : ConnectionState}
    {a : Event}
    (stamped : Stamped t a)
    (sha256 : Bytes → String)
    (f : Frame) :
    Stamped (t.accept sha256 f) a := by
  obtain ⟨id, startup⟩ := accept_identity sha256 t f
  refine ⟨stamped.connectionId.trans id.symm, ?_, ?_, ?_, ?_, ?_⟩
  · rw [startup]
    exact stamped.user
  · rw [startup]
    exact stamped.database
  · rw [startup]
    exact stamped.applicationName
  · intro client
    have bound := stamped.cycle client
    have counted := (accept_counted sha256 t f).nextCycle
    omega
  · intro client current c back
    cases touches : touch f with
    | none =>
        obtain ⟨cycles, nextCycle⟩ := accept_untouched sha256 t touches
        rw [cycles] at back
        rw [nextCycle] at current
        exact stamped.back client current c back
    | some how =>
        have bound := stamped.cycle client
        obtain ⟨d, isBack, -, pushed | ⟨same, old, wasBack, unsealed, grown⟩⟩ :=
          accept_back sha256 t touches
        · omega
        · rw [isBack, Option.some.injEq] at back
          subst back
          rw [same] at current
          obtain ⟨sealed, executed⟩ := stamped.back client current old wasBack
          refine ⟨?_, ?_⟩
          · intro sync
            rw [sealed sync] at unsealed
            cases unsealed
          · intro other
            have bound := executed other
            omega

/-- An event of a client frame and the back cycle it names. -/
theorem mem_frontend_back
    {sha256 : Bytes → String}
    {t : ConnectionState}
    (numbered : Numbered t)
    {f : Frame}
    {b : Event}
    (member : b ∈ (t.frontend sha256 f).1) :
    ∃ how c,
      touch f = some how ∧ (t.accept sha256 f).cycles.getLast? = some c ∧
        b.queryCycle = (t.accept sha256 f).nextCycle ∧
        b.statementIndex = c.executions ∧
        (b.event = "frontend.sync" → how.seals = true) ∧
        (b.event ≠ "frontend.sync" → (t.noted sha256 f).length = 1) := by
  obtain ⟨named, located, -⟩ := mem_frontend member
  have touches :
      ∃ how, touch f = some how ∧
        (b.event = "frontend.sync" → how.seals = true) ∧
        (b.event ≠ "frontend.sync" → (t.noted sha256 f).length = 1) := by
    have unasked (c : StatementClass) : "frontend.sync" ∉ requested c := by
      cases c <;> decide
    unfold receive at named
    unfold touch noted
    cases tag : f.frontendTag <;> simp only [tag] at named
    case query =>
      refine ⟨_, rfl, ?_, by simp⟩
      intro sync
      rw [sync] at named
      simp [unasked] at named
    case execute =>
      refine ⟨_, rfl, ?_, by simp⟩
      intro sync
      rw [sync] at named
      simp [unasked] at named
    case sync =>
      exact ⟨_, rfl, fun _ => rfl,
        fun other => absurd (List.mem_singleton.mp named) other⟩
    all_goals simp at named
  obtain ⟨how, touched, seals, notes⟩ := touches
  obtain ⟨c, back, -⟩ := accept_back sha256 t touched
  have cycle := congrArg Coordinates.queryCycle located
  have index := congrArg Coordinates.statementIndex located
  simp only [Event.coordinates, ConnectionState.coordinates, referenced, back,
    if_true, Option.map_some, Option.getD_some, referencedIndex]
    at cycle index
  rw [(numbered.accept sha256 f).back_id back] at cycle
  exact ⟨how, c, touched, back, cycle, index, seals, notes⟩

/-- A new client event differs from the earlier ones of its name. -/
theorem Stamped.apart
    {sha256 : Bytes → String}
    {t : ConnectionState}
    {a b : Event}
    (numbered : Numbered t)
    (stamped : Stamped t a)
    {f : Frame}
    (member : b ∈ (t.frontend sha256 f).1) :
    Apart a b := by
  intro client named sameCycle
  have bound := stamped.cycle client
  obtain ⟨how, c, touches, back, cycle, index, -, notes⟩ :=
    mem_frontend_back numbered member
  obtain ⟨d, isBack, -, pushed | ⟨same, old, wasBack, unsealed, grown⟩⟩ :=
    accept_back sha256 t touches
  · omega
  · rw [isBack, Option.some.injEq] at back
    subst back
    have current : a.queryCycle = t.nextCycle := by omega
    obtain ⟨sealed, executed⟩ := stamped.back client current old wasBack
    by_cases sync : a.event = "frontend.sync"
    · rw [sealed sync] at unsealed
      cases unsealed
    · have once := notes (named ▸ sync)
      have earlier := executed sync
      omega

/-- A new client event is stamped. -/
theorem stamped_frontend
    {sha256 : Bytes → String}
    {t : ConnectionState}
    (numbered : Numbered t)
    {f : Frame}
    {b : Event}
    (member : b ∈ (t.frontend sha256 f).1) :
    Stamped (t.accept sha256 f) b := by
  obtain ⟨id, startup, -⟩ := mem_events_rest member
  obtain ⟨how, c, touches, back, cycle, index, seals, -⟩ :=
    mem_frontend_back numbered member
  refine ⟨id, by rw [startup]; rfl, by rw [startup]; rfl, ?_, ?_, ?_⟩
  · intro none
    rw [startup]
    exact none
  · intro _
    exact Nat.le_of_eq cycle
  · intro _ _ d isBack
    rw [isBack, Option.some.injEq] at back
    subst back
    refine ⟨?_, fun _ => Nat.le_of_eq index⟩
    intro sync
    obtain ⟨e, eBack, sealed, -⟩ := accept_back sha256 t touches
    rw [isBack, Option.some.injEq] at eBack
    subst eBack
    rw [sealed, seals sync, Bool.or_true]

end ConnectionState

namespace History

/-- One `ReadyForQuery` raises no name twice. -/
theorem readyNames_nodup (t : ConnectionState) (status : TxState) :
    (t.readyNames status ++ ["connection.ready"]).Nodup := by
  unfold readyNames
  cases decision : t.completed status with
  | none =>
      split <;> decide
  | some name =>
      obtain ⟨c, completes⟩ := completes_of_completed decision
      rcases completes.decided with ⟨rfl, -⟩ | ⟨rfl, -⟩ | ⟨rfl, -⟩ <;>
        split <;> decide

/-- One call raises no name twice. -/
theorem called_nodup
    (sha256 : Bytes → String)
    (t : ConnectionState)
    (call : Call) :
    ((called sha256 t call).1.map Event.event).Nodup := by
  cases call with
  | forwarded =>
      simp [called]
  | frontend f =>
      simp only [called, frontend_names, receive]
      cases f.frontendTag with
      | query =>
          simp only
          cases (t.resolve sha256 f).statementClass <;> decide
      | execute =>
          simp only
          cases (t.resolve sha256 f).statementClass <;> decide
      | sync =>
          simp
      | _ =>
          exact List.nodup_nil
  | backend f =>
      simp only [called, backend_names, backendNames]
      cases f.backendTag with
      | readyForQuery =>
          simp only
          split
          · exact readyNames_nodup t _
          · exact List.nodup_nil
      | commandComplete =>
          simp
      | rowDescription =>
          simp
      | dataRow =>
          simp
      | errorResponse =>
          simp
      | _ =>
          exact List.nodup_nil

/-- The events of one call say the same of the connection. -/
theorem called_identity
    {sha256 : Bytes → String}
    {t : ConnectionState}
    {call : Call}
    {b : Event}
    (member : b ∈ (called sha256 t call).1) :
    b.connectionId = t.id ∧ b.startup = t.startup := by
  cases call with
  | forwarded =>
      rw [List.mem_singleton.mp member]
      exact ⟨rfl, rfl⟩
  | frontend f =>
      obtain ⟨id, startup, -⟩ := mem_events_rest member
      obtain ⟨sameId, sameStartup⟩ := accept_identity sha256 t f
      exact ⟨id.trans sameId, startup.trans sameStartup⟩
  | backend f =>
      obtain ⟨id, startup, -⟩ := mem_backend_rest member
      exact ⟨id, startup⟩

/-- How the events of a run stand to each other and to the state behind them. -/
structure Dated (h : History) : Prop where
  numbered : Numbered h.state
  stamped : ∀ a ∈ h.raised, Stamped h.state a
  ordered : h.raised.Pairwise fun a b => Before a b ∧ Apart a b

theorem dated_start
    (id : Nat)
    (startup : StartupMetadata) :
    Dated (start id startup) :=
  ⟨numbered_new id startup, by simp [start], List.Pairwise.nil⟩

/-- No name is raised by both sides. -/
theorem not_client_of_server :
    ∀ name ∈ serverNames, name ∉ clientNames := by
  decide

/-- The events of one call are in order. -/
theorem called_ordered
    (sha256 : Bytes → String)
    (t : ConnectionState)
    (call : Call) :
    (called sha256 t call).1.Pairwise fun a b => Before a b ∧ Apart a b := by
  have distinct := called_nodup sha256 t call
  rw [List.Nodup, List.pairwise_map] at distinct
  refine distinct.imp_of_mem ?_
  intro a b isA isB unlike
  obtain ⟨idA, startupA⟩ := called_identity isA
  obtain ⟨idB, startupB⟩ := called_identity isB
  refine ⟨⟨idA.trans idB.symm, by rw [startupA, startupB],
    by rw [startupA, startupB], ?_⟩, fun _ same => absurd same unlike⟩
  rw [startupA, startupB]
  exact fun none => none

/-- An event that no client frame raises is stamped by its connection alone. -/
theorem stamped_of_silent
    {t : ConnectionState}
    {b : Event}
    (identity : b.connectionId = t.id ∧ b.startup = t.startup)
    (silent : b.event ∉ clientNames) :
    Stamped t b := by
  obtain ⟨id, startup⟩ := identity
  refine ⟨id, by rw [startup], by rw [startup], ?_,
    fun client => absurd client silent, fun client => absurd client silent⟩
  rw [startup]
  exact fun none => none

theorem before_of_stamped
    {sha256 : Bytes → String}
    {t : ConnectionState}
    {a b : Event}
    (stamped : Stamped t a)
    {call : Call}
    (member : b ∈ (called sha256 t call).1) :
    Before a b := by
  obtain ⟨id, startup⟩ := called_identity member
  refine ⟨stamped.connectionId.trans id.symm, ?_, ?_, ?_⟩
  · rw [startup]
    exact stamped.user
  · rw [startup]
    exact stamped.database
  · rw [startup]
    exact stamped.applicationName

/-- One call keeps the events of a run in order. -/
theorem Dated.step
    {sha256 : Bytes → String}
    {h : History}
    (dated : Dated h)
    (call : Call) :
    Dated (step sha256 h call) := by
  obtain ⟨counters, state⟩ := called_state sha256 h.state call
  have silent {b : Event} (unheard : b.event ∉ clientNames) (a : Event) :
      Apart a b := by
    intro client same
    rw [same] at client
    exact absurd client unheard
  -- What is said of the old events and of the new ones.
  have parts :
      (∀ a, Stamped h.state a → Stamped (h.state.moves sha256 call) a) ∧
        (∀ b ∈ (called sha256 h.state call).1,
          Stamped (h.state.moves sha256 call) b ∧
            ∀ a, Stamped h.state a → Apart a b) := by
    cases call with
    | frontend f =>
        exact ⟨fun a stamped => stamped.accept sha256 f,
          fun b member => ⟨stamped_frontend dated.numbered member,
            fun a stamped => stamped.apart dated.numbered member⟩⟩
    | forwarded =>
        refine ⟨fun a stamped => stamped, ?_⟩
        intro b member
        have unheard : b.event ∉ clientNames := by
          rw [List.mem_singleton.mp member]
          change "query.forwarded" ∉ clientNames
          decide
        exact ⟨stamped_of_silent (called_identity member) unheard,
          fun a _ => silent unheard a⟩
    | backend f =>
        refine ⟨fun a stamped => stamped.advance f, ?_⟩
        intro b member
        have unheard : b.event ∉ clientNames :=
          not_client_of_server _
            (backendNames_serverNames h.state f _ (mem_backend member).1)
        exact ⟨(stamped_of_silent (called_identity member) unheard).advance f,
          fun a _ => silent unheard a⟩
  obtain ⟨kept, added⟩ := parts
  refine ⟨numbered_called dated.numbered sha256 call, ?_, ?_⟩
  · simp only [History.step, state]
    intro a member
    rcases List.mem_append.mp member with old | new
    · exact (kept a (dated.stamped a old)).recount counters
    · exact (added a new).1.recount counters
  · simp only [History.step]
    rw [List.pairwise_append]
    refine ⟨dated.ordered, called_ordered sha256 h.state call, ?_⟩
    intro a old b new
    have stamped := dated.stamped a old
    exact ⟨before_of_stamped stamped new, (added b new).2 a stamped⟩

theorem dated_run
    (sha256 : Bytes → String)
    (id : Nat)
    (startup : StartupMetadata)
    (calls : List Call) :
    Dated (run sha256 id startup calls) :=
  Machine.run_invariant (fun _ call dated => dated.step call)
    (dated_start id startup) calls

/-! ## Where an event was raised -/

theorem run_concat
    (sha256 : Bytes → String)
    (id : Nat)
    (startup : StartupMetadata)
    (calls : List Call)
    (call : Call) :
    run sha256 id startup (calls ++ [call]) =
      step sha256 (run sha256 id startup calls) call := by
  unfold run
  rw [Machine.run_append]
  rfl

/-- Later calls only add events. -/
theorem raised_prefix
    (sha256 : Bytes → String)
    (id : Nat)
    (startup : StartupMetadata)
    (before after : List Call) :
    (run sha256 id startup before).raised <+:
      (run sha256 id startup (before ++ after)).raised := by
  induction after using List.reverseRecOn with
  | nil =>
      simp
  | append_singleton rest call inductionHypothesis =>
      rw [← List.append_assoc, run_concat]
      exact inductionHypothesis.trans (List.prefix_append _ _)

/-- Every event of a run was raised by one of its calls. -/
theorem exists_call
    {sha256 : Bytes → String}
    {id : Nat}
    {startup : StartupMetadata}
    {calls : List Call}
    {k : Nat}
    {a : Event}
    (raised : (run sha256 id startup calls).raised[k]? = some a) :
    ∃ before call after,
      calls = before ++ call :: after ∧
        (run sha256 id startup before).raised.length ≤ k ∧
        (called sha256 (run sha256 id startup before).state call).1[
          k - (run sha256 id startup before).raised.length]? = some a := by
  induction calls using List.reverseRecOn with
  | nil =>
      simp [run, start] at raised
  | append_singleton rest call inductionHypothesis =>
      rw [run_concat] at raised
      simp only [History.step] at raised
      by_cases old : k < (run sha256 id startup rest).raised.length
      · rw [List.getElem?_append_left old] at raised
        obtain ⟨before, earlier, after, shape, bound, found⟩ :=
          inductionHypothesis raised
        refine ⟨before, earlier, after ++ [call], ?_, bound, found⟩
        rw [shape, List.append_assoc, List.cons_append]
      · have late := Nat.le_of_not_lt old
        rw [List.getElem?_append_right late] at raised
        exact ⟨rest, call, [], rfl, late, raised⟩

/-- What a row index says, whoever raises the event. -/
theorem row_of_called
    {sha256 : Bytes → String}
    {t : ConnectionState}
    (numbered : Numbered t)
    {call : Call}
    {a : Event}
    (member : a ∈ (called sha256 t call).1) :
    (a.event ≠ "result.row" → a.rowIndex = none) ∧
      (a.event = "result.row" → (a.rowIndex = none ↔ a.queryCycle = 0)) := by
  cases call with
  | forwarded =>
      rw [List.mem_singleton.mp member]
      have unlike : t.forwarded.1.event ≠ "result.row" := by
        change "query.forwarded" ≠ "result.row"
        decide
      exact ⟨fun _ => rfl, fun isRow => absurd isRow unlike⟩
  | frontend f =>
      obtain ⟨-, -, row⟩ := mem_events_rest member
      refine ⟨fun other => by rw [row, if_neg other], ?_⟩
      intro isRow
      have client := receive_clientNames sha256 t f _ (mem_frontend member).1
      rw [isRow] at client
      exact absurd client (by decide)
  | backend f =>
      obtain ⟨-, -, row⟩ := mem_backend_rest member
      refine ⟨fun other => by rw [row, if_neg other], ?_⟩
      intro isRow
      rw [row, if_pos isRow, Option.map_eq_none_iff]
      have cycle := congrArg Coordinates.queryCycle (mem_backend member).2.1
      cases front : t.cycles.head? with
      | none =>
          simpa [Event.coordinates, ConnectionState.coordinates, referenced,
            front] using cycle
      | some c =>
          have number := numbered.front_id front
          have isFront : a.queryCycle = c.id := by
            simpa [Event.coordinates, ConnectionState.coordinates, referenced,
              front] using cycle
          simp only [reduceCtorEq, false_iff]
          omega

/-- What a pairwise relation says of two positions. -/
theorem related_of_pairwise
    {α : Type}
    {relation : α → α → Prop}
    {entries : List α}
    (ordered : entries.Pairwise relation)
    {k i : Nat}
    (early : k < i)
    {a b : α}
    (first : entries[k]? = some a)
    (second : entries[i]? = some b) :
    relation a b := by
  obtain ⟨boundK, isA⟩ := List.getElem?_eq_some_iff.mp first
  obtain ⟨boundI, isB⟩ := List.getElem?_eq_some_iff.mp second
  have related :=
    List.pairwise_iff_getElem.mp ordered k i boundK boundI early
  rw [isA, isB] at related
  exact related

/-- A call's events stand in the run behind those of the calls before it. -/
theorem raised_of_called
    {sha256 : Bytes → String}
    {id : Nat}
    {startup : StartupMetadata}
    {before : List Call}
    (after : List Call)
    {call : Call}
    {a : Event}
    (member : a ∈ (called sha256 (run sha256 id startup before).state call).1) :
    ∃ k < (run sha256 id startup (before ++ [call])).raised.length,
      (run sha256 id startup (before ++ call :: after)).raised[k]? = some a := by
  have inside : a ∈ (run sha256 id startup (before ++ [call])).raised := by
    rw [run_concat]
    exact List.mem_append_right _ member
  obtain ⟨k, bound, found⟩ := List.mem_iff_getElem.mp inside
  obtain ⟨later, shape⟩ := raised_prefix sha256 id startup (before ++ [call]) after
  refine ⟨k, bound, ?_⟩
  rw [List.append_assoc, List.singleton_append] at shape
  rw [← shape, List.getElem?_append_left bound, List.getElem?_eq_getElem bound,
    found]

/-- An event and an earlier one of its name were raised by different calls. -/
theorem raised_before
    {sha256 : Bytes → String}
    {id : Nat}
    {startup : StartupMetadata}
    {before after : List Call}
    {call : Call}
    {k i : Nat}
    {a e : Event}
    (bound : (run sha256 id startup before).raised.length ≤ k)
    (found :
      (called sha256 (run sha256 id startup before).state call).1[
        k - (run sha256 id startup before).raised.length]? = some a)
    (early : k < i)
    (recorded :
      (run sha256 id startup (before ++ call :: after)).raised[i]? = some e)
    (same : a.event = e.event) :
    (run sha256 id startup (before ++ [call])).raised.length ≤ i := by
  by_contra inside
  have within := Nat.lt_of_not_le inside
  obtain ⟨later, shape⟩ := raised_prefix sha256 id startup (before ++ [call]) after
  rw [List.append_assoc, List.singleton_append] at shape
  rw [← shape, List.getElem?_append_left within, run_concat] at recorded
  simp only [History.step] at recorded
  rw [List.getElem?_append_right (Nat.le_trans bound (Nat.le_of_lt early))]
    at recorded
  have distinct :=
    called_nodup sha256 (run sha256 id startup before).state call
  rw [List.Nodup, List.pairwise_map] at distinct
  exact related_of_pairwise distinct (by omega) found recorded same

end History

end Pgfault
