import Pgfault.ConnectionState

namespace Pgfault

open Queue

/-!
# What one call of the observer does

Raising events only moves the occurrence counters.  So a call is known by the
state it leaves apart from the counters, by the names it raises, and by the
coordinates every raised event carries.  `accept` and `advance` are the two
state changes; the lemmas here let later proofs never open `frontend` or
`backend` again.
-/

/-- The coordinates of an event that name a statement. -/
structure Coordinates where
  queryCycle : Nat
  statementIndex : Nat
  statementClass : StatementClass
  sqlFingerprint : String
  deriving Repr, DecidableEq

/-- The statement coordinates an event carries. -/
def Event.coordinates (e : Event) : Coordinates where
  queryCycle := e.queryCycle
  statementIndex := e.statementIndex
  statementClass := e.statementClass
  sqlFingerprint := e.sqlFingerprint

namespace ConnectionState

/-- The coordinates an event raised now would carry. -/
def coordinates (s : ConnectionState) (front : Bool) : Coordinates where
  queryCycle := ((s.referenced front).map Cycle.id).getD 0
  statementIndex := ((s.referenced front).map (referencedIndex front)).getD 0
  statementClass :=
    (((s.referenced front).map (referencedStatement front)).getD
      default).statementClass
  sqlFingerprint :=
    (((s.referenced front).map (referencedStatement front)).getD
      default).fingerprint

/-! ## Raising events -/

/-- The same state with other occurrence counters. -/
@[simps] def recount
    (s : ConnectionState)
    (counters : String → Nat) : ConnectionState :=
  { s with counters := counters }

/-- A forwarded frame is counted, and nothing else. -/
theorem forwarded_recount
    (s : ConnectionState)
    (counters : String → Nat) :
    ∃ others, (s.recount counters).forwarded.2 = s.recount others :=
  ⟨_, rfl⟩

/-- Raising events changes nothing but the counters. -/
theorem events_state
    (s : ConnectionState)
    (front : Bool)
    (names : List String) :
    (s.events front names).2 =
      s.recount (s.events front names).2.counters := by
  induction names generalizing s with
  | nil =>
      rfl
  | cons name rest inductionHypothesis =>
      simp only [events]
      rw [inductionHypothesis]
      rfl

/-- The raised names are the requested ones, in order. -/
@[simp] theorem events_names
    (s : ConnectionState)
    (front : Bool)
    (names : List String) :
    (s.events front names).1.map Event.event = names := by
  induction names generalizing s with
  | nil =>
      rfl
  | cons name rest inductionHypothesis =>
      simp only [events, List.map_cons, inductionHypothesis]
      rfl

/-- Every raised event describes the state it was raised in. -/
theorem mem_events
    {s : ConnectionState}
    {front : Bool}
    {names : List String}
    {e : Event}
    (member : e ∈ (s.events front names).1) :
    e.event ∈ names ∧ e.coordinates = s.coordinates front ∧
      e.transactionEpoch = s.txEpoch ∧ e.semanticReliable = s.reliable := by
  induction names generalizing s with
  | nil =>
      simp [events] at member
  | cons name rest inductionHypothesis =>
      simp only [events, List.mem_cons] at member
      rcases member with isFirst | inRest
      · subst e
        exact ⟨by simp [event], rfl, rfl, rfl⟩
      · obtain ⟨named, located, epoch, reliable⟩ := inductionHypothesis inRest
        exact ⟨List.mem_cons_of_mem name named, located, epoch, reliable⟩

section EventsFields

variable (s : ConnectionState) (front : Bool) (names : List String)

@[simp] theorem events_cycles :
    (s.events front names).2.cycles = s.cycles := by
  rw [events_state, recount]

@[simp] theorem events_reliable :
    (s.events front names).2.reliable = s.reliable := by
  rw [events_state, recount]

@[simp] theorem events_txState :
    (s.events front names).2.txState = s.txState := by
  rw [events_state, recount]

@[simp] theorem events_txEpoch :
    (s.events front names).2.txEpoch = s.txEpoch := by
  rw [events_state, recount]

end EventsFields

/-! ## Server frames -/

/-- The state change of a server frame, apart from the counters. -/
def advance (s : ConnectionState) (f : Frame) : ConnectionState :=
  match f.backendTag with
  | .parameterStatus => s.parameterStatus f.body
  | .parseComplete => s.acknowledge .parseComplete
  | .bindComplete => s.acknowledge .bindComplete
  | .closeComplete => s.acknowledge .closeComplete
  | .dataRow =>
      { s with
        cycles := modifyFront (fun c => { c with rows := c.rows + 1 })
          s.cycles }
  | .commandComplete =>
      { s with cycles := modifyFront (completeCommand f.body) s.cycles }
  | .portalSuspended =>
      { s with cycles := modifyFront suspendPortal s.cycles }
  | .errorResponse => s.fail
  | .readyForQuery =>
      match statusOf f.body with
      | some status => { s with txState := status }.endCycle status
      | none => s
  | _ => s

/-- The names a server frame raises. -/
def backendNames (s : ConnectionState) (f : Frame) : List String :=
  match f.backendTag with
  | .rowDescription => ["result.started"]
  | .dataRow => ["result.row"]
  | .commandComplete =>
      ["backend.command_complete", "statement.execution_completed",
        "result.completed"]
  | .errorResponse => ["backend.error"]
  | .readyForQuery =>
      match statusOf f.body with
      | some status => s.readyNames status ++ ["connection.ready"]
      | none => []
  | _ => []

/-- Ending a cycle and moving the counters do not meet. -/
theorem endCycle_recount
    (s : ConnectionState)
    (status : TxState)
    (counters : String → Nat) :
    (s.recount counters).endCycle status =
      (s.endCycle status).recount counters := by
  unfold endCycle recount
  by_cases idle : status = .idle <;>
    by_cases drained : s.cycles.tail.isEmpty <;>
    simp [idle, drained]

/-- `ReadyForQuery` stores the status and ends the front cycle. -/
theorem readyForQuery_state
    (s : ConnectionState)
    (status : TxState) :
    (s.readyForQuery status).2 =
      ({ s with txState := status }.endCycle status).recount
        (s.readyForQuery status).2.counters := by
  have entered :
      { (s.events false (s.readyNames status)).2 with txState := status } =
        { s with txState := status }.recount
          (s.events false (s.readyNames status)).2.counters := by
    rw [events_state]
    rfl
  unfold readyForQuery
  simp only [entered]
  rw [events_state, endCycle_recount, endCycle_recount]
  rfl

/-- `backend` is `advance`, apart from the counters. -/
theorem backend_state
    (s : ConnectionState)
    (f : Frame) :
    (s.backend f).2 =
      (s.advance f).recount (s.backend f).2.counters := by
  unfold backend advance
  cases f.backendTag with
  | readyForQuery =>
      cases statusOf f.body with
      | none =>
          rfl
      | some status =>
          exact readyForQuery_state s status
  | commandComplete =>
      simp only [events_cycles]
      rw [events_state]
      rfl
  | dataRow =>
      exact events_state _ _ _
  | rowDescription =>
      exact events_state _ _ _
  | errorResponse =>
      exact events_state _ _ _
  | _ =>
      rfl

/-- The names `backend` raises. -/
theorem backend_names
    (s : ConnectionState)
    (f : Frame) :
    (s.backend f).1.map Event.event = s.backendNames f := by
  unfold backend backendNames
  cases f.backendTag with
  | readyForQuery =>
      cases statusOf f.body with
      | none =>
          rfl
      | some status =>
          simp [readyForQuery]
  | commandComplete =>
      simp
  | _ =>
      rfl

/-- An update of the front that keeps what events read keeps the coordinates. -/
theorem coordinates_modifyFront
    {s : ConnectionState}
    {update : Cycle → Cycle}
    (sameId : ∀ c, (update c).id = c.id)
    (sameStatements : ∀ c, (update c).statements = c.statements)
    (sameLast : ∀ c, (update c).last = c.last)
    (sameIndex : ∀ c, (update c).statementIndex = c.statementIndex) :
    { s with cycles := modifyFront update s.cycles }.coordinates false =
      s.coordinates false := by
  cases queue : s.cycles with
  | nil =>
      simp [coordinates, referenced, queue]
  | cons first rest =>
      simp [coordinates, referenced, referencedIndex, referencedStatement,
        queue, sameId, sameStatements, sameLast, sameIndex]

/--
Every event of a server frame describes the front cycle as the frame found it.
-/
theorem mem_backend
    {s : ConnectionState}
    {f : Frame}
    {e : Event}
    (member : e ∈ (s.backend f).1) :
    e.event ∈ s.backendNames f ∧ e.coordinates = s.coordinates false ∧
      e.transactionEpoch = s.txEpoch ∧ e.semanticReliable = s.reliable := by
  have named : e.event ∈ s.backendNames f := by
    rw [← backend_names]
    exact List.mem_map_of_mem member
  refine ⟨named, ?_⟩
  unfold backend at member
  cases tag : f.backendTag <;> simp only [tag] at member
  case readyForQuery =>
    cases status : statusOf f.body with
    | none =>
        simp [status] at member
    | some status' =>
        simp only [status, readyForQuery, List.mem_append] at member
        rcases member with early | late
        · exact (mem_events early).2
        · obtain ⟨-, located, epoch, reliable⟩ := mem_events late
          refine ⟨?_, by simpa using epoch, by simpa using reliable⟩
          rw [located]
          simp [coordinates, referenced]
  case dataRow =>
    obtain ⟨-, located, epoch, reliable⟩ := mem_events member
    refine ⟨located.trans ?_, epoch, reliable⟩
    exact coordinates_modifyFront (fun _ => rfl) (fun _ => rfl)
      (fun _ => rfl) (fun _ => rfl)
  case errorResponse =>
    obtain ⟨-, located, epoch, reliable⟩ := mem_events member
    refine ⟨located.trans ?_, epoch, reliable⟩
    exact coordinates_modifyFront (fun _ => rfl) (fun _ => rfl)
      (fun _ => rfl) (fun _ => rfl)
  case commandComplete =>
    exact (mem_events member).2
  case rowDescription =>
    exact (mem_events member).2
  all_goals simp at member

/-- Raise the event of one name in a server frame's list. -/
theorem exists_backend_event
    {s : ConnectionState}
    {f : Frame}
    {name : String}
    (raised : name ∈ s.backendNames f) :
    ∃ e ∈ (s.backend f).1, e.event = name := by
  rw [← backend_names] at raised
  obtain ⟨e, member, named⟩ := List.mem_map.mp raised
  exact ⟨e, member, named⟩

/-! ## Client frames -/

/-- The state change of a client frame, apart from the counters. -/
def accept
    (sha256 : Bytes → String)
    (s : ConnectionState)
    (f : Frame) : ConnectionState :=
  (s.receive sha256 f).1.allocateEpoch f

/-- `frontend` is `accept`, apart from the counters. -/
theorem frontend_state
    (sha256 : Bytes → String)
    (s : ConnectionState)
    (f : Frame) :
    (s.frontend sha256 f).2 =
      (s.accept sha256 f).recount (s.frontend sha256 f).2.counters :=
  events_state _ _ _

/-- The names `frontend` raises. -/
theorem frontend_names
    (sha256 : Bytes → String)
    (s : ConnectionState)
    (f : Frame) :
    (s.frontend sha256 f).1.map Event.event = (s.receive sha256 f).2 :=
  events_names _ _ _

/-- Every event of a client frame describes the back cycle it left. -/
theorem mem_frontend
    {sha256 : Bytes → String}
    {s : ConnectionState}
    {f : Frame}
    {e : Event}
    (member : e ∈ (s.frontend sha256 f).1) :
    e.event ∈ (s.receive sha256 f).2 ∧
      e.coordinates = (s.accept sha256 f).coordinates true ∧
      e.transactionEpoch = (s.accept sha256 f).txEpoch ∧
      e.semanticReliable = (s.accept sha256 f).reliable :=
  mem_events member

/-! ## The queue under client frames -/

/--
What a client frame may do to a cycle: add statements and changes at the end,
seal it, and mark its epoch.  Everything the server's answers wrote stays.
-/
structure Grows (c d : Cycle) : Prop where
  id : d.id = c.id
  last : d.last = c.last
  rows : d.rows = c.rows
  command : d.command = c.command
  error : d.error = c.error
  extended : d.extended = c.extended
  statementIndex : d.statementIndex = c.statementIndex
  statements : c.statements <+: d.statements
  mutations : c.mutations <+: d.mutations
  sealed : c.sealed = true → d.sealed = true

theorem Grows.refl (c : Cycle) : Grows c c where
  id := rfl
  last := rfl
  rows := rfl
  command := rfl
  error := rfl
  extended := rfl
  statementIndex := rfl
  statements := List.prefix_rfl
  mutations := List.prefix_rfl
  sealed := fun before => before

theorem Grows.trans {c d e : Cycle} (first : Grows c d) (second : Grows d e) :
    Grows c e where
  id := second.id.trans first.id
  last := second.last.trans first.last
  rows := second.rows.trans first.rows
  command := second.command.trans first.command
  error := second.error.trans first.error
  extended := second.extended.trans first.extended
  statementIndex := second.statementIndex.trans first.statementIndex
  statements := first.statements.trans second.statements
  mutations := first.mutations.trans second.mutations
  sealed := fun before => second.sealed (first.sealed before)

/-- The cycle `openCycle` pushes. -/
def fresh (s : ConnectionState) (extended : Bool) : Cycle where
  id := s.nextCycle + 1
  extended := extended
  sealed := !extended

/-- How the queue looks after a client frame. -/
structure QueueGrows (s t : ConnectionState) : Prop where
  queue :
    (t.nextCycle = s.nextCycle ∧ List.Forall₂ Grows s.cycles t.cycles) ∨
      (∃ extended,
        t.nextCycle = s.nextCycle + 1 ∧
          List.Forall₂ Grows (s.cycles ++ [s.fresh extended]) t.cycles)
  txState : t.txState = s.txState
  reliable : t.reliable = s.reliable

/-- A change that leaves queue, status and reliability alone grows nothing. -/
theorem QueueGrows.of_same
    {s t : ConnectionState}
    (cycles : t.cycles = s.cycles)
    (nextCycle : t.nextCycle = s.nextCycle)
    (txState : t.txState = s.txState)
    (reliable : t.reliable = s.reliable) :
    QueueGrows s t where
  queue := Or.inl ⟨nextCycle, by
    rw [cycles]
    exact List.forall₂_same.mpr fun c _ => Grows.refl c⟩
  txState := txState
  reliable := reliable

/-- Growth followed by a change of other fields and of single cycles. -/
theorem QueueGrows.extend
    {s t u : ConnectionState}
    (grown : QueueGrows s t)
    (cycles : List.Forall₂ Grows t.cycles u.cycles)
    (nextCycle : u.nextCycle = t.nextCycle)
    (txState : u.txState = t.txState)
    (reliable : u.reliable = t.reliable) :
    QueueGrows s u where
  queue := by
    rcases grown.queue with ⟨same, queue⟩ | ⟨extended, pushed, queue⟩
    · exact Or.inl ⟨nextCycle.trans same,
        forall₂_trans Grows (fun _ _ _ => Grows.trans) queue cycles⟩
    · exact Or.inr ⟨extended, nextCycle.trans pushed,
        forall₂_trans Grows (fun _ _ _ => Grows.trans) queue cycles⟩
  txState := txState.trans grown.txState
  reliable := reliable.trans grown.reliable

theorem openCycle_grows
    (s : ConnectionState)
    (extended : Bool) :
    QueueGrows s (s.openCycle extended) := by
  unfold openCycle
  by_cases starts : s.startsCycle extended = true
  · rw [if_pos starts]
    exact ⟨Or.inr ⟨extended, rfl,
      List.forall₂_same.mpr fun c _ => Grows.refl c⟩, rfl, rfl⟩
  · rw [if_neg starts]
    exact QueueGrows.of_same rfl rfl rfl rfl

/-- The queue of `openCycle` does not depend on the name maps. -/
theorem openCycle_congr
    {s t : ConnectionState}
    (cycles : t.cycles = s.cycles)
    (nextCycle : t.nextCycle = s.nextCycle)
    (extended : Bool) :
    (t.openCycle extended).cycles = (s.openCycle extended).cycles ∧
      (t.openCycle extended).nextCycle =
        (s.openCycle extended).nextCycle := by
  unfold openCycle startsCycle
  rw [cycles, nextCycle]
  split
  · exact ⟨rfl, rfl⟩
  · exact ⟨cycles, nextCycle⟩

/-- The back cycle that `openCycle` leaves. -/
theorem openCycle_back
    (s : ConnectionState)
    (extended : Bool) :
    ∃ earlier back,
      (s.openCycle extended).cycles = earlier ++ [back] ∧
        back.sealed = !extended := by
  unfold openCycle
  by_cases starts : s.startsCycle extended = true
  · rw [if_pos starts]
    exact ⟨s.cycles, _, rfl, rfl⟩
  · rw [if_neg starts]
    rcases eq_nil_or_concat s.cycles with empty | ⟨earlier, back, shape⟩
    · simp [startsCycle, empty] at starts
    · refine ⟨earlier, back, shape, ?_⟩
      cases extended with
      | true =>
          simpa [startsCycle, shape] using starts
      | false =>
          simp [startsCycle] at starts

/-- Behind an extended `cycle` call the back is open, so no other is pushed. -/
theorem openCycle_cycle
    (s : ConnectionState)
    {update : Cycle → Cycle}
    (keeps : ∀ c, (update c).sealed = c.sealed) :
    (s.cycle true update).openCycle true = s.cycle true update := by
  obtain ⟨earlier, back, shape, unsealed⟩ := openCycle_back s true
  have noStart : (s.cycle true update).startsCycle true = false := by
    simp [startsCycle, cycle, shape, keeps, unsealed]
  conv_lhs => unfold openCycle
  simp [noStart]

/--
A client update of the back cycle that records the statements `added` and
seals the cycle if `seals` says so.
-/
structure BackUpdate
    (added : List Statement)
    (seals : Bool)
    (update : Cycle → Cycle) : Prop where
  grows : ∀ c, Grows c (update c)
  statements : ∀ c, (update c).statements = c.statements ++ added
  executions : ∀ c, (update c).executions = c.executions + added.length
  sealed : ∀ c, (update c).sealed = (c.sealed || seals)

theorem BackUpdate.none : BackUpdate [] false fun c => c where
  grows := Grows.refl
  statements := by simp
  executions := by simp
  sealed := by simp

theorem BackUpdate.queue (mutation : Mutation) :
    BackUpdate [] false (Cycle.queue mutation) where
  grows := fun c =>
    { Grows.refl c with mutations := List.prefix_append _ _ }
  statements := by simp [Cycle.queue]
  executions := by simp [Cycle.queue]
  sealed := by simp [Cycle.queue]

/-- The update behind `recordStatement`. -/
def record (statement : Statement) (c : Cycle) : Cycle :=
  { c with
    statements := c.statements ++ [statement]
    executions := c.executions + 1 }

theorem BackUpdate.record (statement : Statement) :
    BackUpdate [statement] false (record statement) where
  grows := fun c =>
    { Grows.refl c with statements := List.prefix_append _ _ }
  statements := fun _ => rfl
  executions := fun _ => rfl
  sealed := by simp [ConnectionState.record]

/-- The update behind `Sync`. -/
def sealCycle (c : Cycle) : Cycle :=
  { c with sealed := true }

theorem BackUpdate.sealCycle : BackUpdate [] true sealCycle where
  grows := fun c => { Grows.refl c with sealed := fun _ => rfl }
  statements := by simp [ConnectionState.sealCycle]
  executions := by simp [ConnectionState.sealCycle]
  sealed := by simp [ConnectionState.sealCycle]

/-- The statements a client frame records. -/
def noted
    (sha256 : Bytes → String)
    (s : ConnectionState)
    (f : Frame) : List Statement :=
  if f.frontendTag = .query ∨ f.frontendTag = .execute then
    [s.resolve sha256 f]
  else
    []

/-- How a client frame uses the queue. -/
structure Touch where
  extended : Bool
  seals : Bool
  deriving Repr, DecidableEq

/-- Whether `Close` finds a kind and a name in its body. -/
def readsClose : Bytes → Bool
  | [] => false
  | _ :: rest => (cstr rest).isSome

/--
The use a client frame makes of the queue: a cycle of which kind it works on,
and whether it seals it.  `none` leaves the queue alone.
-/
def touch (f : Frame) : Option Touch :=
  match f.frontendTag with
  | .parse => some ⟨true, false⟩
  | .bind => some ⟨true, false⟩
  | .close => if readsClose f.body then some ⟨true, false⟩ else none
  | .query => some ⟨false, false⟩
  | .execute => some ⟨true, false⟩
  | .sync => some ⟨true, true⟩
  | _ => none

/-- Only `Sync` seals. -/
theorem seals_of_touch
    {f : Frame}
    {how : Touch}
    (touches : touch f = some how) :
    how.seals = (f.frontendTag == .sync) := by
  unfold touch at touches
  cases tag : f.frontendTag <;> simp only [tag] at touches
  case close =>
    split at touches <;> cases touches
    rfl
  all_goals
    cases touches
    try rfl

/-- What the tag dispatch of a client frame does to the queue. -/
structure Receives
    (use : Option Touch)
    (added : List Statement)
    (s t : ConnectionState) : Prop where
  queue :
    (use = none ∧ added = [] ∧ t.cycles = s.cycles ∧
        t.nextCycle = s.nextCycle) ∨
      ∃ how update,
        use = some how ∧ BackUpdate added how.seals update ∧
          t.cycles = modifyBack update (s.openCycle how.extended).cycles ∧
          t.nextCycle = (s.openCycle how.extended).nextCycle
  txState : t.txState = s.txState
  reliable : t.reliable = s.reliable

theorem Receives.of_same
    {s t : ConnectionState}
    (cycles : t.cycles = s.cycles)
    (nextCycle : t.nextCycle = s.nextCycle)
    (txState : t.txState = s.txState)
    (reliable : t.reliable = s.reliable) :
    Receives none [] s t :=
  ⟨Or.inl ⟨rfl, rfl, cycles, nextCycle⟩, txState, reliable⟩

theorem openCycle_eq_cycle
    (s : ConnectionState)
    (extended : Bool) :
    s.openCycle extended = s.cycle extended fun c => c := by
  unfold cycle
  rcases eq_nil_or_concat (s.openCycle extended).cycles with
      empty | ⟨earlier, back, shape⟩
  · simp only [empty, modifyBack_nil]
    rw [← empty]
  · simp only [shape, modifyBack_concat]
    rw [← shape]

@[simp] theorem openCycle_txState
    (s : ConnectionState)
    (extended : Bool) :
    (s.openCycle extended).txState = s.txState :=
  (openCycle_grows s extended).txState

@[simp] theorem openCycle_reliable
    (s : ConnectionState)
    (extended : Bool) :
    (s.openCycle extended).reliable = s.reliable :=
  (openCycle_grows s extended).reliable

@[simp] theorem cycle_txState
    (s : ConnectionState)
    (extended : Bool)
    (update : Cycle → Cycle) :
    (s.cycle extended update).txState = s.txState :=
  openCycle_txState s extended

@[simp] theorem cycle_reliable
    (s : ConnectionState)
    (extended : Bool)
    (update : Cycle → Cycle) :
    (s.cycle extended update).reliable = s.reliable :=
  openCycle_reliable s extended

/-- A `cycle` call on a state that differs from `s` in its name maps only. -/
theorem Receives.of_cycle
    {s s' : ConnectionState}
    {added : List Statement}
    {seals : Bool}
    {update : Cycle → Cycle}
    (updates : BackUpdate added seals update)
    (extended : Bool)
    (cycles : s'.cycles = s.cycles)
    (nextCycle : s'.nextCycle = s.nextCycle)
    (txState : s'.txState = s.txState)
    (reliable : s'.reliable = s.reliable) :
    Receives (some ⟨extended, seals⟩) added s
      (s'.cycle extended update) := by
  obtain ⟨sameCycles, sameNext⟩ := openCycle_congr cycles nextCycle extended
  refine ⟨Or.inr ⟨_, update, rfl, updates, ?_, sameNext⟩, ?_, ?_⟩
  · simp only [cycle, sameCycles]
  · rw [cycle_txState, txState]
  · rw [cycle_reliable, reliable]

/-- A later change of the name maps does not matter. -/
theorem Receives.of_after
    {s t u : ConnectionState}
    {use : Option Touch}
    {added : List Statement}
    (receives : Receives use added s t)
    (cycles : u.cycles = t.cycles)
    (nextCycle : u.nextCycle = t.nextCycle)
    (txState : u.txState = t.txState)
    (reliable : u.reliable = t.reliable) :
    Receives use added s u where
  queue := by
    rw [cycles, nextCycle]
    exact receives.queue
  txState := txState.trans receives.txState
  reliable := reliable.trans receives.reliable

/-- Opening a cycle alone. -/
theorem Receives.of_openCycle
    {s s' : ConnectionState}
    (extended : Bool)
    (cycles : s'.cycles = s.cycles)
    (nextCycle : s'.nextCycle = s.nextCycle)
    (txState : s'.txState = s.txState)
    (reliable : s'.reliable = s.reliable) :
    Receives (some ⟨extended, false⟩) [] s (s'.openCycle extended) := by
  rw [openCycle_eq_cycle]
  exact Receives.of_cycle BackUpdate.none extended cycles nextCycle txState
    reliable

theorem queue_sealed (mutation : Mutation) (c : Cycle) :
    (c.queue mutation).sealed = c.sealed := rfl

theorem receiveParse_receives
    (sha256 : Bytes → String)
    (s : ConnectionState)
    (body : Bytes) :
    Receives (some ⟨true, false⟩) [] s (s.receiveParse sha256 body) := by
  unfold receiveParse
  cases cstr body with
  | none =>
      exact Receives.of_openCycle true rfl rfl rfl rfl
  | some named =>
      cases second : cstr named.2 with
      | none =>
          simp only [second]
          exact Receives.of_openCycle true rfl rfl rfl rfl
      | some sql =>
          simp only [second]
          rw [openCycle_cycle _ (queue_sealed _)]
          exact Receives.of_cycle (BackUpdate.queue _) true rfl rfl rfl rfl

theorem receiveBind_receives
    (s : ConnectionState)
    (body : Bytes) :
    Receives (some ⟨true, false⟩) [] s (s.receiveBind body) := by
  unfold receiveBind
  cases cstr body with
  | none =>
      exact Receives.of_openCycle true rfl rfl rfl rfl
  | some named =>
      cases second : cstr named.2 with
      | none =>
          simp only [second]
          exact Receives.of_openCycle true rfl rfl rfl rfl
      | some target =>
          cases known : s.prepared target.1 with
          | none =>
              simp only [second, known]
              exact Receives.of_openCycle true rfl rfl rfl rfl
          | some statement =>
              simp only [second, known]
              rw [openCycle_cycle _ (queue_sealed _)]
              exact Receives.of_cycle (BackUpdate.queue _) true
                rfl rfl rfl rfl

theorem receiveClose_receives
    (s : ConnectionState)
    (body : Bytes) :
    Receives (if readsClose body then some ⟨true, false⟩ else none) [] s
      (s.receiveClose body) := by
  unfold receiveClose readsClose
  cases body with
  | nil =>
      exact Receives.of_same rfl rfl rfl rfl
  | cons kind rest =>
      cases named : cstr rest with
      | none =>
          simp only [named]
          exact Receives.of_same rfl rfl rfl rfl
      | some target =>
          have queued :
              Receives (some ⟨true, false⟩) [] s
                (s.cycle true (Cycle.queue (.close kind target.1))) :=
            Receives.of_cycle (BackUpdate.queue _) true rfl rfl rfl rfl
          simp only [named, Option.isSome_some, if_true]
          -- The optimistic removal comes behind the queue operation.
          split
          · exact queued.of_after rfl rfl rfl rfl
          · split
            · exact queued.of_after rfl rfl rfl rfl
            · exact queued

/-- The queue effect of every client frame. -/
theorem receive_receives
    (sha256 : Bytes → String)
    (s : ConnectionState)
    (f : Frame) :
    Receives (touch f) (s.noted sha256 f) s (s.receive sha256 f).1 := by
  unfold receive noted touch
  cases f.frontendTag with
  | parse =>
      exact receiveParse_receives sha256 s f.body
  | bind =>
      exact receiveBind_receives s f.body
  | close =>
      exact receiveClose_receives s f.body
  | query =>
      exact Receives.of_cycle (BackUpdate.record _) false rfl rfl rfl rfl
  | execute =>
      exact Receives.of_cycle (BackUpdate.record _) true rfl rfl rfl rfl
  | sync =>
      exact Receives.of_cycle BackUpdate.sealCycle true rfl rfl rfl rfl
  | _ =>
      exact Receives.of_same rfl rfl rfl rfl

theorem Receives.grows
    {use : Option Touch}
    {added : List Statement}
    {s t : ConnectionState}
    (receives : Receives use added s t) :
    QueueGrows s t := by
  rcases receives.queue with
      ⟨-, -, cycles, nextCycle⟩ |
        ⟨how, update, -, updates, cycles, nextCycle⟩
  · exact QueueGrows.of_same cycles nextCycle receives.txState
      receives.reliable
  · refine (openCycle_grows s how.extended).extend ?_ nextCycle ?_ ?_
    · rw [cycles]
      exact forall₂_modifyBack Grows Grows.refl updates.grows _
    · rw [receives.txState, openCycle_txState]
    · rw [receives.reliable, openCycle_reliable]

/-- The queue after growth, with the pushed cycle apart. -/
theorem QueueGrows.exists_pushed
    {s t : ConnectionState}
    (grown : QueueGrows s t) :
    ∃ pushed,
      (pushed = [] ∨ ∃ extended, pushed = [s.fresh extended]) ∧
        List.Forall₂ Grows (s.cycles ++ pushed) t.cycles := by
  rcases grown.queue with ⟨-, queue⟩ | ⟨extended, -, queue⟩
  · exact ⟨[], Or.inl rfl, by simpa using queue⟩
  · exact ⟨[s.fresh extended], Or.inr ⟨extended, rfl⟩, queue⟩

/-- The front after growth is the old one, or new in an empty queue. -/
theorem QueueGrows.front
    {s t : ConnectionState}
    (grown : QueueGrows s t)
    {d : Cycle}
    (isFront : t.cycles.head? = some d) :
    (∃ c, s.cycles.head? = some c ∧ Grows c d) ∨
      (s.cycles = [] ∧ ∃ extended, Grows (s.fresh extended) d) := by
  obtain ⟨pushed, pushedShape, queue⟩ := grown.exists_pushed
  cases old : s.cycles with
  | nil =>
      right
      obtain ⟨c, source, grows⟩ :=
        exists_of_forall₂ queue (List.mem_of_mem_head? isFront)
      rw [old, List.nil_append] at source
      rcases pushedShape with rfl | ⟨extended, rfl⟩
      · simp at source
      · rw [List.mem_singleton] at source
        subst source
        exact ⟨rfl, extended, grows⟩
  | cons first rest =>
      left
      rw [old, List.cons_append] at queue
      obtain ⟨e, restAfter, grows, -, queueShape⟩ :=
        List.forall₂_cons_left_iff.mp queue
      have isNewFront : e = d := by
        rw [queueShape] at isFront
        simpa using isFront
      subst isNewFront
      exact ⟨first, rfl, grows⟩

/-- A cycle behind the front after growth stood there before or is new. -/
theorem QueueGrows.behind
    {s t : ConnectionState}
    (grown : QueueGrows s t)
    {d : Cycle}
    (member : d ∈ t.cycles.tail) :
    (∃ c ∈ s.cycles.tail, Grows c d) ∨
      ∃ extended, Grows (s.fresh extended) d := by
  obtain ⟨pushed, pushedShape, queue⟩ := grown.exists_pushed
  have isPushed
      {c : Cycle}
      (source : c ∈ pushed)
      (grows : Grows c d) :
      ∃ extended, Grows (s.fresh extended) d := by
    rcases pushedShape with rfl | ⟨extended, rfl⟩
    · simp at source
    · rw [List.mem_singleton] at source
      subst source
      exact ⟨extended, grows⟩
  cases old : s.cycles with
  | nil =>
      obtain ⟨c, source, grows⟩ :=
        exists_of_forall₂ queue (List.mem_of_mem_tail member)
      rw [old, List.nil_append] at source
      exact Or.inr (isPushed source grows)
  | cons first rest =>
      rw [old, List.cons_append] at queue
      obtain ⟨e, restAfter, -, restShape, queueShape⟩ :=
        List.forall₂_cons_left_iff.mp queue
      rw [queueShape, List.tail_cons] at member
      obtain ⟨c, source, grows⟩ := exists_of_forall₂ restShape member
      rcases List.mem_append.mp source with inRest | inPushed
      · exact Or.inl ⟨c, inRest, grows⟩
      · exact Or.inr (isPushed inPushed grows)

/-- The mark `allocateEpoch` leaves on the front cycle. -/
def markEpoch (c : Cycle) : Cycle :=
  { c with epochAllocated := true }

theorem markEpoch_grows (c : Cycle) : Grows c (markEpoch c) :=
  ⟨rfl, rfl, rfl, rfl, rfl, rfl, rfl, List.prefix_rfl, List.prefix_rfl,
    fun before => before⟩

/-- Allocating an epoch only marks the front cycle. -/
theorem allocateEpoch_cycles
    (s : ConnectionState)
    (f : Frame) :
    (s.allocateEpoch f).cycles = s.cycles ∨
      (s.allocateEpoch f).cycles = modifyFront markEpoch s.cycles := by
  unfold allocateEpoch
  split
  · exact Or.inr rfl
  · exact Or.inl rfl

/-- Every client frame only grows the queue. -/
theorem accept_grows
    (sha256 : Bytes → String)
    (s : ConnectionState)
    (f : Frame) :
    QueueGrows s (s.accept sha256 f) := by
  have received := (receive_receives sha256 s f).grows
  unfold accept allocateEpoch
  split
  · exact received.extend
      (forall₂_modifyFront Grows Grows.refl markEpoch_grows _) rfl rfl rfl
  · exact received

/-- Whether the back cycle is closed to extended frames. -/
theorem startsCycle_true (s : ConnectionState) :
    s.startsCycle true = ((s.cycles.map Cycle.sealed).getLast?).getD true := by
  unfold startsCycle
  rw [List.getLast?_map]
  cases s.cycles.getLast? <;> rfl

/-- How many cycles a use of the queue adds. -/
def pushes (s : ConnectionState) : Option Touch → Nat
  | none => 0
  | some how => if s.startsCycle how.extended then 1 else 0

/-- What a client frame does to the counts of the queue. -/
structure Counted
    (use : Option Touch)
    (s t : ConnectionState) : Prop where
  nextCycle : t.nextCycle = s.nextCycle + s.pushes use
  length : t.cycles.length = s.cycles.length + s.pushes use
  starts :
    t.startsCycle true =
      use.elim (s.startsCycle true) fun how => how.seals || !how.extended

theorem Receives.counted
    {use : Option Touch}
    {added : List Statement}
    {s t : ConnectionState}
    (receives : Receives use added s t) :
    Counted use s t := by
  rcases receives.queue with
      ⟨rfl, -, cycles, nextCycle⟩ |
        ⟨how, update, rfl, updates, cycles, nextCycle⟩
  · exact ⟨nextCycle, by rw [cycles]; rfl,
      by simp [startsCycle_true, cycles]⟩
  · refine ⟨?_, ?_, ?_⟩
    · rw [nextCycle, openCycle, pushes]
      split <;> rfl
    · rw [cycles, length_modifyBack, openCycle, pushes]
      split <;> simp
    · obtain ⟨earlier, back, shape, isSealed⟩ :=
        openCycle_back s how.extended
      rw [startsCycle_true, cycles, shape, modifyBack_concat]
      simp [updates.sealed, isSealed, Bool.or_comm]

/-- The counts of the queue after a client frame. -/
theorem accept_counted
    (sha256 : Bytes → String)
    (s : ConnectionState)
    (f : Frame) :
    Counted (touch f) s (s.accept sha256 f) := by
  have received := (receive_receives sha256 s f).counted
  rcases received with ⟨nextCycle, length, starts⟩
  unfold accept allocateEpoch
  split
  · refine ⟨nextCycle, by rw [← length]; simp, ?_⟩
    rw [← starts, startsCycle_true, startsCycle_true]
    have keeps (c : Cycle) : (markEpoch c).sealed = c.sealed := rfl
    exact congrArg (fun marks => marks.getLast?.getD true)
      (map_modifyFront keeps _)
  · exact ⟨nextCycle, length, starts⟩

/-- The number of a cycle and the statements it waits for. -/
def waiting (c : Cycle) : Nat × List Statement :=
  (c.id, c.statements)

/--
A client frame adds the statements it records at the back of the queue, in a
new cycle or in the open one.
-/
theorem accept_waiting
    (sha256 : Bytes → String)
    (s : ConnectionState)
    (f : Frame) :
    (s.noted sha256 f = [] ∧
        (s.accept sha256 f).cycles.map waiting =
          s.cycles.map waiting) ∨
      ∃ earlier id statements,
        (s.accept sha256 f).cycles.map waiting =
            earlier ++ [(id, statements ++ s.noted sha256 f)] ∧
          (s.cycles.map waiting = earlier ++ [(id, statements)] ∨
            (s.cycles.map waiting = earlier ∧
              id = s.nextCycle + 1 ∧ statements = [])) := by
  have marked :
      (s.accept sha256 f).cycles.map waiting =
        (s.receive sha256 f).1.cycles.map waiting := by
    unfold accept
    rcases allocateEpoch_cycles (s.receive sha256 f).1 f with same | marks
    · rw [same]
    · rw [marks]
      have keeps (c : Cycle) : waiting (markEpoch c) = waiting c := rfl
      exact map_modifyFront keeps _
  rw [marked]
  rcases (receive_receives sha256 s f).queue with
      ⟨-, nothing, cycles, -⟩ | ⟨how, update, -, updates, cycles, -⟩
  · exact Or.inl ⟨nothing, by rw [cycles]⟩
  · right
    rw [cycles]
    unfold openCycle
    by_cases starts : s.startsCycle how.extended = true
    · rw [if_pos starts]
      refine ⟨s.cycles.map waiting, s.nextCycle + 1, [], ?_,
        Or.inr ⟨rfl, rfl, rfl⟩⟩
      simp [waiting, updates.statements, (updates.grows _).id]
    · rw [if_neg starts]
      rcases eq_nil_or_concat s.cycles with empty | ⟨earlier, back, shape⟩
      · simp [startsCycle, empty] at starts
      · refine ⟨earlier.map waiting, back.id, back.statements, ?_,
          Or.inl ?_⟩
        · simp [shape, waiting, updates.statements,
            (updates.grows _).id]
        · simp [shape, waiting]

/-! ## The queue under server frames -/

/-- The status of a valid `ReadyForQuery` frame. -/
def readyStatus (f : Frame) : Option TxState :=
  if f.backendTag = .readyForQuery then statusOf f.body else none

/-- What a server frame that ends no cycle does to the front cycle. -/
def answer (f : Frame) (c : Cycle) : Cycle :=
  match f.backendTag with
  | .parseComplete => { c with mutations := c.mutations.tail }
  | .bindComplete => { c with mutations := c.mutations.tail }
  | .closeComplete => { c with mutations := c.mutations.tail }
  | .dataRow => { c with rows := c.rows + 1 }
  | .commandComplete => completeCommand f.body c
  | .portalSuspended => suspendPortal c
  | .errorResponse => { c with error := true, mutations := [] }
  | _ => c

/-- `ParameterStatus` changes nothing but the startup parameters. -/
theorem parameterStatus_eq
    (s : ConnectionState)
    (body : Bytes) :
    s.parameterStatus body =
      { s with startup := (s.parameterStatus body).startup } := by
  unfold parameterStatus
  repeat' split
  all_goals rfl

/-- An acknowledgement changes nothing but reliability and confirmed maps. -/
theorem confirm_eq
    (s : ConnectionState)
    (tag : BackendTag)
    (mutation : Option Mutation) :
    s.confirm tag mutation =
      { s with
        reliable := (s.confirm tag mutation).reliable
        confirmedPrepared := (s.confirm tag mutation).confirmedPrepared
        confirmedPortals := (s.confirm tag mutation).confirmedPortals } := by
  unfold confirm
  split
  case h_3 =>
    split <;> rfl
  all_goals rfl

@[simp] theorem confirm_cycles
    (s : ConnectionState)
    (tag : BackendTag)
    (mutation : Option Mutation) :
    (s.confirm tag mutation).cycles = s.cycles := by
  rw [confirm_eq]

@[simp] theorem confirm_nextCycle
    (s : ConnectionState)
    (tag : BackendTag)
    (mutation : Option Mutation) :
    (s.confirm tag mutation).nextCycle = s.nextCycle := by
  rw [confirm_eq]

@[simp] theorem confirm_txState
    (s : ConnectionState)
    (tag : BackendTag)
    (mutation : Option Mutation) :
    (s.confirm tag mutation).txState = s.txState := by
  rw [confirm_eq]

@[simp] theorem confirm_txEpoch
    (s : ConnectionState)
    (tag : BackendTag)
    (mutation : Option Mutation) :
    (s.confirm tag mutation).txEpoch = s.txEpoch := by
  rw [confirm_eq]

/-- An acknowledgement never restores reliability. -/
theorem reliable_of_confirm
    {s : ConnectionState}
    {tag : BackendTag}
    {mutation : Option Mutation}
    (reliable : (s.confirm tag mutation).reliable = true) :
    s.reliable = true := by
  unfold confirm at reliable
  split at reliable
  case h_3 =>
    split at reliable <;> exact reliable
  case h_4 =>
    cases reliable
  all_goals exact reliable

/-- A valid `ReadyForQuery` takes the front cycle off the queue. -/
theorem advance_cycles_of_ready
    (s : ConnectionState)
    {f : Frame}
    {status : TxState}
    (ready : readyStatus f = some status) :
    (s.advance f).cycles = s.cycles.tail := by
  unfold readyStatus at ready
  by_cases tag : f.backendTag = .readyForQuery
  · rw [if_pos tag] at ready
    simp only [advance, tag, ready, endCycle]
    split <;> split <;> rfl
  · simp [tag] at ready

/-- Every other server frame works on the front cycle. -/
theorem advance_cycles_of_open
    (s : ConnectionState)
    {f : Frame}
    (stays : readyStatus f = none) :
    (s.advance f).cycles = modifyFront (answer f) s.cycles := by
  have same {update : Cycle → Cycle} (fixes : ∀ c, update c = c) :
      s.cycles = modifyFront update s.cycles := by
    cases s.cycles <;> simp [fixes]
  unfold advance
  cases tag : f.backendTag with
  | readyForQuery =>
      have unknown : statusOf f.body = none := by
        simpa [readyStatus, tag] using stays
      simp only [unknown]
      exact same fun c => by simp [answer, tag]
  | parameterStatus =>
      have kept : (s.parameterStatus f.body).cycles = s.cycles := by
        rw [parameterStatus_eq]
      simp only [kept]
      exact same fun c => by simp [answer, tag]
  | parseComplete =>
      simp only [acknowledge, confirm_cycles]
      congr 1
      funext c
      simp [answer, tag]
  | bindComplete =>
      simp only [acknowledge, confirm_cycles]
      congr 1
      funext c
      simp [answer, tag]
  | closeComplete =>
      simp only [acknowledge, confirm_cycles]
      congr 1
      funext c
      simp [answer, tag]
  | dataRow =>
      simp only
      congr 1
      funext c
      simp [answer, tag]
  | commandComplete =>
      simp only
      congr 1
      funext c
      simp [answer, tag]
  | portalSuspended =>
      simp only
      congr 1
      funext c
      simp [answer, tag]
  | errorResponse =>
      simp only [fail]
      congr 1
      funext c
      simp [answer, tag]
  | _ =>
      exact same fun c => by simp [answer, tag]

/-- The part of a cycle that only client frames write. -/
structure ClientPart (c d : Cycle) : Prop where
  id : d.id = c.id
  extended : d.extended = c.extended
  sealed : d.sealed = c.sealed
  executions : d.executions = c.executions

/-- `popStatement` without its case distinction. -/
theorem popStatement_eq (c : Cycle) :
    popStatement c =
      { c with
        statements := c.statements.tail
        last := c.statements.head?.getD c.last } := by
  unfold popStatement
  cases c with
  | mk id statements =>
      cases statements <;> rfl

/-- Server frames leave the client part of the front cycle alone. -/
theorem answer_clientPart (f : Frame) (c : Cycle) :
    ClientPart c (answer f c) := by
  unfold answer
  cases f.backendTag <;>
    simp only [completeCommand, suspendPortal, popStatement_eq] <;>
    exact ⟨rfl, rfl, rfl, rfl⟩

/-- Only an `ErrorResponse` marks the front cycle as failed. -/
theorem answer_error (f : Frame) (c : Cycle) :
    (answer f c).error = (c.error || f.backendTag == .errorResponse) := by
  unfold answer
  cases f.backendTag <;>
    simp [completeCommand, suspendPortal, popStatement_eq]

/-- Only a `CommandComplete` stores a command tag. -/
theorem answer_command (f : Frame) (c : Cycle) :
    (answer f c).command =
      if f.backendTag = .commandComplete then (text f.body).getD ""
      else c.command := by
  unfold answer
  cases f.backendTag <;>
    simp [completeCommand, suspendPortal, popStatement_eq]

/-- A reply that ends a statement makes it the last one. -/
theorem answer_last (f : Frame) (c : Cycle) :
    (answer f c).last =
      if f.backendTag = .commandComplete ∨ f.backendTag = .portalSuspended then
        referencedStatement false c
      else
        c.last := by
  unfold answer
  cases f.backendTag <;>
    simp [completeCommand, suspendPortal, popStatement_eq,
      referencedStatement]

/-- Server frames only take statements off. -/
theorem answer_statements (f : Frame) (c : Cycle) :
    (answer f c).statements =
      if f.backendTag = .commandComplete ∨ f.backendTag = .portalSuspended then
        c.statements.tail
      else
        c.statements := by
  unfold answer
  cases f.backendTag <;>
    simp [completeCommand, suspendPortal, popStatement_eq]

/-- Taking the front statement off leaves the one at the back in place. -/
theorem referencedStatement_of_pop
    {c d : Cycle}
    (statements : d.statements = c.statements.tail)
    (last : d.last = referencedStatement false c) :
    referencedStatement true d = referencedStatement true c := by
  simp only [referencedStatement, if_true, statements, last]
  cases shape : c.statements with
  | nil =>
      simp
  | cons first rest =>
      cases rest with
      | nil =>
          simp
      | cons second later =>
          cases back : (second :: later).getLast? with
          | none =>
              simp at back
          | some _ =>
              simp [back]

/-- Server frames create no cycle and allocate no epoch. -/
theorem advance_counts
    (s : ConnectionState)
    (f : Frame) :
    (s.advance f).nextCycle = s.nextCycle ∧
      (s.advance f).txEpoch = s.txEpoch := by
  unfold advance
  cases f.backendTag with
  | readyForQuery =>
      cases statusOf f.body with
      | none =>
          exact ⟨rfl, rfl⟩
      | some status =>
          simp only [endCycle]
          split <;> split <;> exact ⟨rfl, rfl⟩
  | parameterStatus =>
      rw [parameterStatus_eq]
      exact ⟨rfl, rfl⟩
  | parseComplete =>
      exact ⟨confirm_nextCycle _ _ _, confirm_txEpoch _ _ _⟩
  | bindComplete =>
      exact ⟨confirm_nextCycle _ _ _, confirm_txEpoch _ _ _⟩
  | closeComplete =>
      exact ⟨confirm_nextCycle _ _ _, confirm_txEpoch _ _ _⟩
  | _ =>
      exact ⟨rfl, rfl⟩

@[simp] theorem advance_nextCycle
    (s : ConnectionState)
    (f : Frame) :
    (s.advance f).nextCycle = s.nextCycle :=
  (advance_counts s f).1

@[simp] theorem advance_txEpoch
    (s : ConnectionState)
    (f : Frame) :
    (s.advance f).txEpoch = s.txEpoch :=
  (advance_counts s f).2

/-- Only a valid `ReadyForQuery` changes the transaction status. -/
theorem advance_txState
    (s : ConnectionState)
    (f : Frame) :
    (s.advance f).txState = (readyStatus f).getD s.txState := by
  unfold advance readyStatus
  cases f.backendTag with
  | readyForQuery =>
      cases statusOf f.body with
      | none =>
          rfl
      | some status =>
          simp only [endCycle]
          split <;> split <;> rfl
  | parameterStatus =>
      rw [parameterStatus_eq]
      rfl
  | parseComplete =>
      exact confirm_txState _ _ _
  | bindComplete =>
      exact confirm_txState _ _ _
  | closeComplete =>
      exact confirm_txState _ _ _
  | _ =>
      rfl

theorem reliable_of_acknowledge
    {s : ConnectionState}
    {tag : BackendTag}
    (reliable : (s.acknowledge tag).reliable = true) :
    s.reliable = true := by
  unfold acknowledge at reliable
  have before := reliable_of_confirm reliable
  exact before

/-- Only a valid `ReadyForQuery` restores reliability. -/
theorem reliable_of_advance
    {s : ConnectionState}
    {f : Frame}
    (stays : readyStatus f = none)
    (reliable : (s.advance f).reliable = true) :
    s.reliable = true := by
  unfold advance at reliable
  cases tag : f.backendTag <;> simp only [tag] at reliable
  case readyForQuery =>
    have unknown : statusOf f.body = none := by
      simpa [readyStatus, tag] using stays
    simpa only [unknown] using reliable
  case parameterStatus =>
    rw [parameterStatus_eq] at reliable
    exact reliable
  case parseComplete =>
    exact reliable_of_acknowledge reliable
  case bindComplete =>
    exact reliable_of_acknowledge reliable
  case closeComplete =>
    exact reliable_of_acknowledge reliable
  all_goals exact reliable

/-! ## Cycle numbers -/

/-- The queued cycles carry the last consecutive numbers. -/
structure Numbered (s : ConnectionState) : Prop where
  bound : s.cycles.length ≤ s.nextCycle
  ids :
    s.cycles.map Cycle.id =
      List.range' (s.nextCycle - s.cycles.length + 1) s.cycles.length

theorem Numbered.recount
    {s : ConnectionState}
    (numbered : Numbered s)
    (counters : String → Nat) :
    Numbered (s.recount counters) :=
  ⟨numbered.bound, numbered.ids⟩

theorem numbered_new
    (id : Nat)
    (startup : StartupMetadata) :
    Numbered (new id startup) :=
  ⟨Nat.le_refl 0, rfl⟩

theorem map_id_of_grows
    {before after : List Cycle}
    (grown : List.Forall₂ Grows before after) :
    after.map Cycle.id = before.map Cycle.id := by
  induction grown with
  | nil =>
      rfl
  | cons head _ inductionHypothesis =>
      simp [head.id, inductionHypothesis]

theorem Numbered.grows
    {s t : ConnectionState}
    (numbered : Numbered s)
    (grown : QueueGrows s t) :
    Numbered t := by
  have bound := numbered.bound
  rcases grown.queue with ⟨same, queue⟩ | ⟨extended, pushed, queue⟩
  · have length := queue.length_eq
    refine ⟨by omega, ?_⟩
    rw [map_id_of_grows queue, numbered.ids, same, ← length]
  · have length := queue.length_eq
    simp only [List.length_append, List.length_singleton] at length
    refine ⟨by omega, ?_⟩
    rw [map_id_of_grows queue, pushed, ← length]
    have start :
        s.nextCycle + 1 - (s.cycles.length + 1) + 1 =
          s.nextCycle - s.cycles.length + 1 := by
      omega
    rw [start, List.range'_concat, List.map_append, numbered.ids]
    have next :
        s.nextCycle - s.cycles.length + 1 + 1 * s.cycles.length =
          s.nextCycle + 1 := by
      omega
    rw [next]
    rfl

theorem Numbered.accept
    {s : ConnectionState}
    (numbered : Numbered s)
    (sha256 : Bytes → String)
    (f : Frame) :
    Numbered (s.accept sha256 f) :=
  numbered.grows (accept_grows sha256 s f)

theorem Numbered.advance
    {s : ConnectionState}
    (numbered : Numbered s)
    (f : Frame) :
    Numbered (s.advance f) := by
  have bound := numbered.bound
  have ids := numbered.ids
  cases ready : readyStatus f with
  | none =>
      have cycles := advance_cycles_of_open s ready
      refine ⟨?_, ?_⟩
      · rw [cycles, length_modifyFront, advance_nextCycle]
        exact bound
      · rw [cycles, length_modifyFront, advance_nextCycle,
          map_modifyFront (fun c => (answer_clientPart f c).id)]
        exact ids
  | some status =>
      have cycles := advance_cycles_of_ready s ready
      refine ⟨?_, ?_⟩
      · rw [cycles, advance_nextCycle, List.length_tail]
        omega
      · rw [cycles, advance_nextCycle]
        cases queue : s.cycles with
        | nil =>
            rfl
        | cons first rest =>
            rw [queue] at ids bound
            simp only [List.map_cons, List.length_cons, List.range'_succ,
              List.cons.injEq] at ids bound
            rw [List.tail_cons, ids.2]
            congr 1
            omega

/-- The front cycle is the earliest one that has not ended. -/
theorem Numbered.front_id
    {s : ConnectionState}
    (numbered : Numbered s)
    {c : Cycle}
    (front : s.cycles.head? = some c) :
    c.id = s.nextCycle - s.cycles.length + 1 := by
  have ids := numbered.ids
  cases queue : s.cycles with
  | nil =>
      simp [queue] at front
  | cons first rest =>
      have isFront : first = c := by
        simpa [queue] using front
      subst isFront
      rw [queue] at ids
      simp only [List.map_cons, List.length_cons, List.range'_succ,
        List.cons.injEq] at ids
      rw [List.length_cons]
      exact ids.1

/-- The back cycle carries the last number. -/
theorem Numbered.back_id
    {s : ConnectionState}
    (numbered : Numbered s)
    {c : Cycle}
    (back : s.cycles.getLast? = some c) :
    c.id = s.nextCycle := by
  have bound := numbered.bound
  have ids := congrArg List.getLast? numbered.ids
  rcases eq_nil_or_concat s.cycles with empty | ⟨earlier, last, shape⟩
  · simp [empty] at back
  · have isBack : last = c := by
      simpa [shape] using back
    subst isBack
    rw [shape] at ids bound
    simp only [List.map_append, List.map_cons, List.map_nil,
      List.length_append, List.length_singleton, List.range'_concat,
      List.getLast?_concat, Option.some.injEq] at ids bound
    omega

/-- A server frame that leaves the back cycle in the queue. -/
theorem startsCycle_advance
    {s : ConnectionState}
    {f : Frame}
    (remains : readyStatus f = none ∨ s.cycles.tail ≠ []) :
    (s.advance f).startsCycle true = s.startsCycle true := by
  rw [startsCycle_true, startsCycle_true]
  cases ready : readyStatus f with
  | none =>
      rw [advance_cycles_of_open s ready,
        map_modifyFront fun c => (answer_clientPart f c).sealed]
  | some status =>
      have nonempty : s.cycles.tail ≠ [] := by
        rcases remains with none | nonempty
        · rw [none] at ready
          cases ready
        · exact nonempty
      rw [advance_cycles_of_ready s ready]
      cases queue : s.cycles with
      | nil =>
          rfl
      | cons first rest =>
          rw [queue] at nonempty
          cases rest with
          | nil =>
              exact absurd rfl nonempty
          | cons second later =>
              simp

end ConnectionState

end Pgfault
