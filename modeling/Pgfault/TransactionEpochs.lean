import Mathlib.Data.Nat.Count
import Pgfault.PipelineAlignment

namespace Pgfault

open Queue ConnectionState

/-!
# Transaction epochs and transactions

A client sends `Query` frames of one statement each, without waiting, and the
server answers them in order with the true status in every `ReadyForQuery`.
Without `AND CHAIN`, a query starts a transaction just where the server was idle
before it; any other query runs in the transaction of the one before.

The observer allocates an epoch when a `Query` finds it idle with an empty
queue.  A query sent behind an unanswered one never does, so the transactions of
two such queries share an epoch when the server was idle in between.
-/

/-- Both sides of a session that consists of `Query` frames. -/
structure Ledger where
  /-- For every `Query` sent, whether all earlier ones had been answered. -/
  alone : List Bool := []
  /-- The status reported behind every answered `Query`. -/
  statuses : List TxState := []

namespace Ledger

/-- The statuses the queries are executed from. -/
def befores (l : Ledger) : List TxState :=
  .idle :: l.statuses

/-- The replies to a `Query` that raise events. -/
def isReply (tag : BackendTag) : Bool :=
  tag = .rowDescription ∨ tag = .dataRow ∨ tag = .commandComplete ∨
    tag = .errorResponse ∨ tag = .readyForQuery

/-- Which call may come next. -/
def permits (l : Ledger) : Call → Prop
  | .frontend f => f.frontendTag = .query
  | .forwarded => True
  | .backend f =>
      isReply f.backendTag = true →
      l.statuses.length < l.alone.length ∧
        (f.backendTag = .readyForQuery → (readyStatus f).isSome = true)

/-- The session behind a call. -/
def step (l : Ledger) : Call → Ledger
  | .frontend _ =>
      { l with alone := l.alone ++ [l.alone.length == l.statuses.length] }
  | .forwarded => l
  | .backend f => { l with statuses := l.statuses ++ (readyStatus f).toList }

/-- The session after some calls. -/
def run (calls : List Call) : Ledger :=
  Machine.run step {} calls

/-- The query number `k`, from zero, starts a transaction. -/
def Starts (l : Ledger) (k : Nat) : Prop :=
  l.befores[k]? = some .idle

/-- The query number `k` starts a transaction, and was sent to an idle server. -/
def Allocates (l : Ledger) (k : Nat) : Prop :=
  l.alone[k]? = some true ∧ l.Starts k

instance (l : Ledger) : DecidablePred l.Starts :=
  fun k => inferInstanceAs (Decidable (l.befores[k]? = some .idle))

instance (l : Ledger) : DecidablePred l.Allocates :=
  fun k => inferInstanceAs (Decidable (l.alone[k]? = some true ∧ l.Starts k))

/-- The transaction that a query cycle is executed in. -/
def transaction (l : Ledger) (cycle : Nat) : Nat :=
  Nat.count l.Starts cycle

/-- The epochs allocated up to a query cycle. -/
def allocated (l : Ledger) (cycle : Nat) : Nat :=
  Nat.count l.Allocates cycle

/-- The events a server frame raises. -/
def repliesOf (s : ConnectionState) : Call → List Event
  | .backend f => (s.backend f).1
  | _ => []

/-- The events all server frames of a session raise. -/
def replyEvents
    (sha256 : Bytes → String)
    (s : ConnectionState) : List Call → List Event
  | [] => []
  | call :: later =>
      repliesOf s call ++
        replyEvents sha256 (History.called sha256 s call).2 later

/-- Epochs on the events of the replies tell the transactions apart. -/
structure Separates
    (sha256 : Bytes → String)
    (s : ConnectionState)
    (calls : List Call) : Prop where
  apart :
    ∀ e ∈ replyEvents sha256 s calls,
      ∀ e' ∈ replyEvents sha256 s calls,
        (run calls).transaction e.queryCycle ≠
          (run calls).transaction e'.queryCycle →
        e.transactionEpoch ≠ e'.transactionEpoch
  together :
    ∀ e ∈ replyEvents sha256 s calls,
      ∀ e' ∈ replyEvents sha256 s calls,
        (run calls).transaction e.queryCycle =
          (run calls).transaction e'.queryCycle →
        e.transactionEpoch = e'.transactionEpoch

/--
A reply answers a query that the server executed from idle only if the query was
sent when nothing was unanswered.
-/
def Paced (l : Ledger) : Call → Prop
  | .backend f =>
      isReply f.backendTag = true →
      l.Starts l.statuses.length →
      l.alone[l.statuses.length]? = some true
  | _ => True

/-! ## Sessions that go on -/

/-- A later stage of the same session. -/
structure Extends (l m : Ledger) : Prop where
  alone : l.alone <+: m.alone
  statuses : l.statuses <+: m.statuses

theorem extends_step (l : Ledger) (call : Call) : Extends l (l.step call) := by
  cases call with
  | frontend f =>
      exact ⟨List.prefix_append _ _, List.prefix_rfl⟩
  | forwarded =>
      exact ⟨List.prefix_rfl, List.prefix_rfl⟩
  | backend f =>
      exact ⟨List.prefix_rfl, List.prefix_append _ _⟩

theorem Extends.alone_eq
    {l m : Ledger}
    (extended : Extends l m)
    {k : Nat}
    (known : k < l.alone.length) :
    m.alone[k]? = l.alone[k]? := by
  obtain ⟨more, shape⟩ := extended.alone
  rw [← shape, List.getElem?_append_left known]

theorem Extends.starts_iff
    {l m : Ledger}
    (extended : Extends l m)
    {k : Nat}
    (known : k ≤ l.statuses.length) :
    m.Starts k ↔ l.Starts k := by
  obtain ⟨more, shape⟩ := extended.statuses
  have inside : k < l.befores.length := by
    simpa [befores] using Nat.lt_succ_of_le known
  have same : m.befores = l.befores ++ more := by
    simp [befores, ← shape]
  unfold Starts
  rw [same, List.getElem?_append_left inside]

/-- Predicates that agree below a bound are counted alike. -/
theorem count_congr
    {p q : Nat → Prop}
    [DecidablePred p]
    [DecidablePred q]
    {n : Nat}
    (same : ∀ k < n, p k ↔ q k) :
    Nat.count p n = Nat.count q n :=
  Nat.le_antisymm
    (Nat.count_mono_left fun k below => (same k below).mp)
    (Nat.count_mono_left fun k below => (same k below).mpr)

theorem Extends.transaction_eq
    {l m : Ledger}
    (extended : Extends l m)
    {cycle : Nat}
    (known : cycle ≤ l.statuses.length + 1) :
    m.transaction cycle = l.transaction cycle := by
  refine count_congr fun k below => extended.starts_iff ?_
  omega

theorem Extends.allocated_eq
    {l m : Ledger}
    (extended : Extends l m)
    {cycle : Nat}
    (sent : cycle ≤ l.alone.length)
    (known : cycle ≤ l.statuses.length + 1) :
    m.allocated cycle = l.allocated cycle := by
  refine count_congr fun k below => and_congr ?_ (extended.starts_iff ?_)
  · rw [extended.alone_eq (by omega)]
  · omega

/-! ## The observer beside the ledger -/

/-- A `Query` allocates an epoch if it finds the observer idle and empty. -/
theorem accept_query
    (sha256 : Bytes → String)
    (s : ConnectionState)
    {f : Frame}
    (query : f.frontendTag = .query) :
    (s.accept sha256 f).txState = s.txState ∧
      (s.accept sha256 f).txEpoch =
        s.txEpoch + if s.txState = .idle ∧ s.cycles = [] then 1 else 0 := by
  have received :
      (s.receive sha256 f).1 =
        s.forgetUnnamed.recordStatement false (s.resolve sha256 f) := by
    simp [receive, query]
  have queued :
      (s.forgetUnnamed.recordStatement false (s.resolve sha256 f)).cycles =
        s.cycles ++ [record (s.resolve sha256 f)
          { id := s.nextCycle + 1, extended := false, sealed := true }] := by
    simp [recordStatement, ConnectionState.cycle, openCycle, startsCycle,
      forgetUnnamed, record]
  have status :
      (s.forgetUnnamed.recordStatement false
        (s.resolve sha256 f)).txState = s.txState := by
    simp [recordStatement, forgetUnnamed]
  have epoch :
      (s.forgetUnnamed.recordStatement false
        (s.resolve sha256 f)).txEpoch = s.txEpoch := by
    simp [recordStatement, ConnectionState.cycle, openCycle, startsCycle,
      forgetUnnamed]
  unfold accept allocateEpoch allocatesEpoch
  rw [received, queued, status, epoch]
  cases queue : s.cycles with
  | nil =>
      cases before : s.txState <;>
        simp [query, record, status.trans before, epoch]
  | cons first rest =>
      simp [status, epoch]

/-- The observer of a session of queries. -/
structure Agrees (s : ConnectionState) (l : Ledger) : Prop where
  numbered : Numbered s
  nextCycle : s.nextCycle = l.alone.length
  length : s.cycles.length + l.statuses.length = l.alone.length
  txState : l.befores[l.statuses.length]? = some s.txState
  txEpoch : s.txEpoch = l.allocated l.alone.length
  behind : ∀ k, l.statuses.length < k → l.alone[k]? ≠ some true
  first : l.alone[0]? ≠ some false

theorem Agrees.starts_iff
    {s : ConnectionState}
    {l : Ledger}
    (agrees : Agrees s l) :
    l.Starts l.statuses.length ↔ s.txState = .idle := by
  unfold Starts
  rw [agrees.txState, Option.some.injEq]

/-- A `Query` keeps observer and ledger together. -/
theorem Agrees.frontend
    {s : ConnectionState}
    {l : Ledger}
    (agrees : Agrees s l)
    (sha256 : Bytes → String)
    {f : Frame}
    (query : f.frontendTag = .query) :
    Agrees (s.accept sha256 f) (l.step (.frontend f)) := by
  have touches : touch f = some ⟨false, false⟩ := by simp [touch, query]
  have one : s.pushes (touch f) = 1 := by
    simp [touches, pushes, startsCycle]
  have counted := accept_counted sha256 s f
  rw [touches] at counted
  obtain ⟨status, epoch⟩ := accept_query sha256 s query
  have total := agrees.length
  have sentBefore (k : Nat) (below : k < l.alone.length) :
      (l.step (.frontend f)).alone[k]? = l.alone[k]? :=
    (extends_step l (.frontend f)).alone_eq below
  have sentNow :
      (l.step (.frontend f)).alone[l.alone.length]? =
        some (l.alone.length == l.statuses.length) := by
    simp [Ledger.step]
  have more :
      (l.step (.frontend f)).alone.length = l.alone.length + 1 := by
    simp [Ledger.step]
  refine ⟨agrees.numbered.accept sha256 f, ?_, ?_, ?_, ?_, ?_, ?_⟩
  · rw [counted.nextCycle, ← touches, one, agrees.nextCycle, more]
  · rw [counted.length, ← touches, one, more]
    show s.cycles.length + 1 + l.statuses.length = l.alone.length + 1
    omega
  · rw [status]
    exact agrees.txState
  · have earlier :
        (l.step (.frontend f)).allocated l.alone.length = s.txEpoch := by
      rw [agrees.txEpoch]
      refine count_congr fun k below => and_congr ?_ Iff.rfl
      rw [sentBefore k below]
    have allocates :
        (l.step (.frontend f)).Allocates l.alone.length ↔
          s.txState = .idle ∧ s.cycles = [] := by
      unfold Allocates
      rw [sentNow, Option.some.injEq, beq_iff_eq]
      by_cases drained : l.alone.length = l.statuses.length
      · have empty : s.cycles = [] := by
          apply List.eq_nil_of_length_eq_zero
          omega
        rw [drained]
        simp only [empty, and_true, true_and]
        exact agrees.starts_iff
      · have busy : s.cycles ≠ [] := by
          intro empty
          apply drained
          rw [empty] at total
          simpa using total.symm
        simp [drained, busy]
    rw [epoch, more, allocated, Nat.count_succ, ← earlier]
    simp only [allocates]
    rfl
  · intro k later
    rcases Nat.lt_trichotomy k l.alone.length with below | isNow | beyond
    · rw [sentBefore k below]
      exact agrees.behind k later
    · have waits : l.alone.length ≠ l.statuses.length := by
        have after : l.statuses.length < k := later
        omega
      rw [isNow, sentNow]
      simp [waits]
    · have absent : (l.step (.frontend f)).alone[k]? = none := by
        rw [List.getElem?_eq_none_iff, more]
        omega
      simp [absent]
  · cases empty : l.alone with
    | nil =>
        have drained : l.statuses = [] := by
          rw [empty] at total
          simp only [List.length_nil, Nat.add_eq_zero_iff,
            List.length_eq_zero_iff] at total
          exact total.2
        simp [Ledger.step, empty, drained]
    | cons b rest =>
        rw [sentBefore 0 (by simp [empty])]
        exact agrees.first

/-- A server frame keeps observer and ledger together. -/
theorem Agrees.backend
    {s : ConnectionState}
    {l : Ledger}
    (agrees : Agrees s l)
    {f : Frame}
    (permitted : l.permits (.backend f)) :
    Agrees (s.advance f) (l.step (.backend f)) := by
  have total := agrees.length
  cases ready : readyStatus f with
  | none =>
      have same : l.step (.backend f) = l := by
        simp [Ledger.step, ready]
      rw [same]
      refine ⟨agrees.numbered.advance f, ?_, ?_, ?_, ?_, agrees.behind,
        agrees.first⟩
      · rw [advance_nextCycle, agrees.nextCycle]
      · rw [advance_cycles_of_open s ready, length_modifyFront]
        exact total
      · rw [advance_txState, ready]
        exact agrees.txState
      · rw [advance_txEpoch, agrees.txEpoch]
  | some status =>
      have isReady : f.backendTag = .readyForQuery := by
        by_contra other
        simp [readyStatus, other] at ready
      obtain ⟨waits, -⟩ := permitted (by simp [isReply, isReady])
      have more :
          (l.step (.backend f)).statuses = l.statuses ++ [status] := by
        simp [Ledger.step, ready]
      refine ⟨agrees.numbered.advance f, ?_, ?_, ?_, ?_, ?_, agrees.first⟩
      · rw [advance_nextCycle, agrees.nextCycle]
        rfl
      · rw [advance_cycles_of_ready s ready, List.length_tail, more,
          List.length_append, List.length_singleton]
        show _ = l.alone.length
        omega
      · rw [advance_txState, ready, more]
        simp [befores, more]
      · rw [advance_txEpoch, agrees.txEpoch]
        refine count_congr fun k _ => ?_
        by_cases known : k ≤ l.statuses.length
        · exact and_congr Iff.rfl
            ((extends_step l (.backend f)).starts_iff known).symm
        · have never := agrees.behind k (by omega)
          exact ⟨fun both => absurd both.1 never,
            fun both => absurd both.1 never⟩
      · intro k later
        rw [more, List.length_append, List.length_singleton] at later
        exact agrees.behind k (by omega)

/-- One permitted call keeps observer and ledger together. -/
theorem Agrees.call
    {s : ConnectionState}
    {l : Ledger}
    (agrees : Agrees s l)
    (sha256 : Bytes → String)
    {call : Call}
    (permitted : l.permits call) :
    Agrees (History.called sha256 s call).2 (l.step call) := by
  obtain ⟨counters, state⟩ := called_state sha256 s call
  rw [state]
  have moved : Agrees (s.moves sha256 call) (l.step call) := by
    cases call with
    | frontend f =>
        exact agrees.frontend sha256 permitted
    | forwarded =>
        exact agrees
    | backend f =>
        exact agrees.backend permitted
  obtain ⟨numbered, nextCycle, length, txState, txEpoch, behind, first⟩ :=
    moved
  exact ⟨numbered.recount counters, nextCycle, length, txState, txEpoch,
    behind, first⟩

/-! ## The events of the replies -/

theorem isReply_of_raised
    {s : ConnectionState}
    {f : Frame}
    {e : Event}
    (member : e ∈ (s.backend f).1) :
    isReply f.backendTag = true := by
  have raised := (mem_backend member).1
  unfold backendNames at raised
  cases tag : f.backendTag <;> simp [tag] at raised <;> rfl

/-- Every reply raises some event. -/
theorem exists_raised
    {f : Frame}
    (reply : isReply f.backendTag = true)
    (valid :
      f.backendTag = .readyForQuery → (readyStatus f).isSome = true)
    (s : ConnectionState) :
    ∃ e, e ∈ (s.backend f).1 := by
  have named : ∃ name, name ∈ s.backendNames f := by
    unfold backendNames
    cases tag : f.backendTag <;> simp [isReply, tag] at reply ⊢
    obtain ⟨status, known⟩ := Option.isSome_iff_exists.mp (valid tag)
    have decoded : statusOf f.body = some status := by
      simpa [readyStatus, tag] using known
    exact ⟨"connection.ready", by simp [decoded]⟩
  obtain ⟨name, raised⟩ := named
  obtain ⟨e, member, -⟩ := exists_backend_event raised
  exact ⟨e, member⟩

/-- An event of a reply to the query number `cycle`, with its epoch. -/
structure Located (l : Ledger) (cycle : Nat) (e : Event) : Prop where
  queryCycle : e.queryCycle = cycle
  sent : cycle ≤ l.alone.length
  known : cycle ≤ l.statuses.length + 1
  epoch : e.transactionEpoch = l.allocated cycle

theorem Located.extend
    {l m : Ledger}
    {cycle : Nat}
    {e : Event}
    (located : Located l cycle e)
    (extended : Extends l m) :
    Located m cycle e where
  queryCycle := located.queryCycle
  sent := located.sent.trans extended.alone.length_le
  known := located.known.trans
    (Nat.succ_le_succ extended.statuses.length_le)
  epoch := by
    rw [located.epoch, extended.allocated_eq located.sent located.known]

/-- The epochs known so far are those of the queries the server has reached. -/
theorem allocated_sent
    {l : Ledger}
    (waits : l.statuses.length < l.alone.length) :
    l.allocated l.alone.length = l.allocated (l.statuses.length + 1) := by
  obtain ⟨rest, total⟩ := Nat.exists_eq_add_of_le (Nat.succ_le_of_lt waits)
  have none :
      Nat.count (fun k => l.Allocates (l.statuses.length + 1 + k)) rest = 0 := by
    rw [Nat.count_iff_forall_not]
    intro k _ allocates
    have unknown : l.befores[l.statuses.length + 1 + k]? = none := by
      rw [List.getElem?_eq_none_iff, befores, List.length_cons]
      omega
    have starts : l.befores[l.statuses.length + 1 + k]? = some .idle :=
      allocates.2
    rw [unknown] at starts
    cases starts
  unfold allocated
  rw [total, Nat.succ_eq_add_one, Nat.count_add, none, Nat.add_zero]

/-- The events of the next reply. -/
theorem Agrees.located
    {s : ConnectionState}
    {l : Ledger}
    (agrees : Agrees s l)
    {f : Frame}
    (permitted : l.permits (.backend f))
    {e : Event}
    (member : e ∈ (s.backend f).1) :
    Located l (l.statuses.length + 1) e := by
  obtain ⟨waits, -⟩ := permitted (isReply_of_raised member)
  obtain ⟨-, coordinates, epoch, -⟩ := mem_backend member
  have total := agrees.length
  refine ⟨?_, waits, Nat.le_refl _, ?_⟩
  · cases front : s.cycles.head? with
    | none =>
        have empty : s.cycles = [] := List.head?_eq_none_iff.mp front
        rw [empty] at total
        simp only [List.length_nil, Nat.zero_add] at total
        omega
    | some c =>
        have isFront : e.queryCycle = c.id := by
          simpa [Event.coordinates, ConnectionState.coordinates, referenced,
            front] using congrArg Coordinates.queryCycle coordinates
        rw [isFront, agrees.numbered.front_id front, agrees.nextCycle]
        omega
  · rw [epoch, agrees.txEpoch, allocated_sent waits]

/-! ## Whole sessions -/

theorem replyEvents_concat
    (sha256 : Bytes → String)
    (s : ConnectionState)
    (calls : List Call)
    (call : Call) :
    replyEvents sha256 s (calls ++ [call]) =
      replyEvents sha256 s calls ++
        repliesOf (s.observe sha256 calls) call := by
  induction calls generalizing s with
  | nil =>
      simp [replyEvents, observe]
  | cons first later inductionHypothesis =>
      simp only [List.cons_append, replyEvents, List.append_assoc]
      rw [inductionHypothesis]
      rfl

/-- What a session has shown so far. -/
structure Recorded
    (sha256 : Bytes → String)
    (s : ConnectionState)
    (calls : List Call) : Prop where
  agrees : Agrees (s.observe sha256 calls) (run calls)
  located :
    ∀ e ∈ replyEvents sha256 s calls,
      Located (run calls) e.queryCycle e
  answered :
    ∀ k < (run calls).statuses.length,
      ∃ e ∈ replyEvents sha256 s calls, e.queryCycle = k + 1

theorem run_concat (calls : List Call) (call : Call) :
    run (calls ++ [call]) = (run calls).step call :=
  Machine.run_append _ _ calls [call]

theorem observe_concat
    (sha256 : Bytes → String)
    (s : ConnectionState)
    (calls : List Call)
    (call : Call) :
    s.observe sha256 (calls ++ [call]) =
      (History.called sha256 (s.observe sha256 calls) call).2 :=
  Machine.run_append _ _ calls [call]

/-- A new reply event belongs to the query that is being answered. -/
theorem Recorded.replied
    {sha256 : Bytes → String}
    {s : ConnectionState}
    {calls : List Call}
    {call : Call}
    (recorded : Recorded sha256 s calls)
    (permitted : (run calls).permits call)
    {e : Event}
    (member : e ∈ repliesOf (s.observe sha256 calls) call) :
    Located (run calls) ((run calls).statuses.length + 1) e := by
  cases call with
  | frontend f =>
      simp [repliesOf] at member
  | forwarded =>
      simp [repliesOf] at member
  | backend f =>
      exact recorded.agrees.located permitted member

theorem Recorded.concat
    {sha256 : Bytes → String}
    {s : ConnectionState}
    {calls : List Call}
    {call : Call}
    (recorded : Recorded sha256 s calls)
    (permitted : (run calls).permits call) :
    Recorded sha256 s (calls ++ [call]) := by
  have extended := extends_step (run calls) call
  refine ⟨?_, ?_, ?_⟩
  · rw [observe_concat, run_concat]
    exact recorded.agrees.call sha256 permitted
  · intro e member
    rw [replyEvents_concat, List.mem_append] at member
    rw [run_concat]
    rcases member with earlier | new
    · exact (recorded.located e earlier).extend extended
    · have located := recorded.replied permitted new
      rw [located.queryCycle]
      exact located.extend extended
  · intro k below
    rw [replyEvents_concat]
    by_cases before : k < (run calls).statuses.length
    · obtain ⟨e, member, isCycle⟩ := recorded.answered k before
      exact ⟨e, List.mem_append_left _ member, isCycle⟩
    · -- The cycle has just been ended by its `ReadyForQuery`.
      rw [run_concat] at below
      cases call with
      | frontend f =>
          exact absurd below before
      | forwarded =>
          exact absurd below before
      | backend f =>
          cases ready : readyStatus f with
          | none =>
              simp only [step, ready, Option.toList_none,
                List.append_nil] at below
              exact absurd below before
          | some status =>
              have isReady : f.backendTag = .readyForQuery := by
                by_contra other
                simp [readyStatus, other] at ready
              have reply : isReply f.backendTag = true := by
                simp [isReply, isReady]
              simp only [step, ready, Option.toList_some,
                List.length_append, List.length_singleton] at below
              obtain ⟨e, raised⟩ :=
                exists_raised reply (fun _ => by simp [ready])
                  (s.observe sha256 calls)
              have located := recorded.replied permitted raised
              refine ⟨e, List.mem_append_right _ raised, ?_⟩
              rw [located.queryCycle]
              omega

/-- A greeting without a transaction leaves the observer idle. -/
theorem greeted_idle
    (sha256 : Bytes → String)
    (id : Nat)
    (startup : StartupMetadata)
    {greeting : List Frame}
    (greets : ∀ f ∈ greeting, ∀ status ∈ readyStatus f, status = .idle) :
    (greeted sha256 id startup greeting).txState = .idle ∧
      (greeted sha256 id startup greeting).txEpoch = 0 := by
  have stays
      (frames : List Frame)
      (idles : ∀ f ∈ frames, ∀ status ∈ readyStatus f, status = .idle)
      (s : ConnectionState)
      (fresh : s.txState = .idle ∧ s.txEpoch = 0) :
      (s.observe sha256 (frames.map Call.backend)).txState = .idle ∧
        (s.observe sha256 (frames.map Call.backend)).txEpoch = 0 := by
    induction frames generalizing s with
    | nil =>
        exact fresh
    | cons f rest inductionHypothesis =>
        refine inductionHypothesis
          (fun g member => idles g (List.mem_cons_of_mem f member)) _ ?_
        simp only [History.called]
        rw [backend_state, recount_txState, recount_txEpoch, advance_txState,
          advance_txEpoch, fresh.1]
        refine ⟨?_, fresh.2⟩
        cases ready : readyStatus f with
        | none =>
            rfl
        | some status =>
            exact idles f List.mem_cons_self status ready
  exact stays greeting greets (new id startup) ⟨rfl, rfl⟩

/-- The observer a session of queries starts from. -/
theorem recorded_start
    (sha256 : Bytes → String)
    (id : Nat)
    (startup : StartupMetadata)
    {greeting : List Frame}
    (greets : ∀ f ∈ greeting, ∀ status ∈ readyStatus f, status = .idle) :
    Recorded sha256 (greeted sha256 id startup greeting) [] := by
  obtain ⟨cycles, nextCycle⟩ := greeted_empty sha256 id startup greeting
  obtain ⟨idle, epoch⟩ := greeted_idle sha256 id startup greets
  have numbered : Numbered (greeted sha256 id startup greeting) :=
    ⟨by simp [cycles], by simp [cycles]⟩
  refine ⟨⟨numbered, nextCycle, ?_, ?_, epoch, ?_, ?_⟩, ?_, ?_⟩
  · simp [observe, cycles, run]
  · simp [observe, run, befores, idle]
  · intro k _
    simp [run]
  · simp [run]
  · intro e member
    simp [replyEvents] at member
  · intro k below
    simp [run] at below

theorem recorded_run
    {sha256 : Bytes → String}
    {s : ConnectionState}
    (initial : Recorded sha256 s [])
    {calls : List Call}
    (permitted : Machine.Permitted permits step {} calls) :
    Recorded sha256 s calls := by
  induction calls using List.reverseRecOn with
  | nil =>
      exact initial
  | append_singleton before call inductionHypothesis =>
      obtain ⟨earlier, last⟩ := Machine.permitted_append.mp permitted
      exact (inductionHypothesis earlier).concat last.1

/-- In a paced session every transaction so far began with an epoch. -/
theorem allocates_of_paced
    {sha256 : Bytes → String}
    {s : ConnectionState}
    (initial : Recorded sha256 s [])
    {calls : List Call}
    (permitted : Machine.Permitted permits step {} calls)
    (paced : Machine.Permitted Paced step {} calls) :
    ∀ e ∈ replyEvents sha256 s calls,
      ∀ k < e.queryCycle, (run calls).Starts k → (run calls).Allocates k := by
  induction calls using List.reverseRecOn with
  | nil =>
      intro e member
      simp [replyEvents] at member
  | append_singleton before call inductionHypothesis =>
      obtain ⟨permittedBefore, permittedNow⟩ :=
        Machine.permitted_append.mp permitted
      obtain ⟨pacedBefore, pacedNow⟩ := Machine.permitted_append.mp paced
      have recorded := recorded_run initial permittedBefore
      have earlier := inductionHypothesis permittedBefore pacedBefore
      have extended := extends_step (run before) call
      have stays
          {k : Nat}
          (sent : k < (run before).alone.length)
          (known : k ≤ (run before).statuses.length)
          (allocates : (run before).Starts k → (run before).Allocates k)
          (starts : ((run before).step call).Starts k) :
          ((run before).step call).Allocates k := by
        refine ⟨?_, starts⟩
        rw [extended.alone_eq sent]
        exact (allocates ((extended.starts_iff known).mp starts)).1
      intro e member k below starts
      rw [replyEvents_concat, List.mem_append] at member
      rw [run_concat] at starts ⊢
      rcases member with old | new
      · have located := recorded.located e old
        have sent := located.sent
        have known := located.known
        exact stays (by omega) (by omega) (earlier e old k below) starts
      · have located := recorded.replied permittedNow.1 new
        rw [located.queryCycle] at below
        have sent := located.sent
        refine stays (by omega) (by omega) ?_ starts
        intro startsBefore
        by_cases isFront : k = (run before).statuses.length
        · cases call with
          | frontend f =>
              simp [repliesOf] at new
          | forwarded =>
              simp [repliesOf] at new
          | backend f =>
              rw [isFront] at startsBefore ⊢
              exact ⟨pacedNow.1 (isReply_of_raised new) startsBefore,
                startsBefore⟩
        · -- An earlier query: its `ReadyForQuery` has been seen.
          obtain ⟨answer, seen, isCycle⟩ :=
            recorded.answered k (by omega)
          exact earlier answer seen k (by omega) startsBefore

/-- Paced sessions give every transaction an epoch of its own. -/
theorem separates_of_paced
    {sha256 : Bytes → String}
    {s : ConnectionState}
    (initial : Recorded sha256 s [])
    {calls : List Call}
    (permitted : Machine.Permitted permits step {} calls)
    (paced : Machine.Permitted Paced step {} calls) :
    Separates sha256 s calls := by
  have recorded := recorded_run initial permitted
  have epoch_eq
      {e : Event}
      (member : e ∈ replyEvents sha256 s calls) :
      e.transactionEpoch = (run calls).transaction e.queryCycle := by
    rw [(recorded.located e member).epoch]
    refine count_congr fun k below => ⟨fun allocates => allocates.2, ?_⟩
    exact allocates_of_paced initial permitted paced e member k below
  refine ⟨?_, ?_⟩
  · intro e member e' member' different
    rw [epoch_eq member, epoch_eq member']
    exact different
  · intro e member e' member' same
    rw [epoch_eq member, epoch_eq member']
    exact same

/-- What separates a session separates its beginnings. -/
theorem Separates.before
    {sha256 : Bytes → String}
    {s : ConnectionState}
    {calls : List Call}
    {call : Call}
    (recorded : Recorded sha256 s calls)
    (separates : Separates sha256 s (calls ++ [call])) :
    Separates sha256 s calls := by
  have same
      {e : Event}
      (member : e ∈ replyEvents sha256 s calls) :
      (run (calls ++ [call])).transaction e.queryCycle =
        (run calls).transaction e.queryCycle := by
    rw [run_concat]
    exact (extends_step (run calls) call).transaction_eq
      (recorded.located e member).known
  have later
      {e : Event}
      (member : e ∈ replyEvents sha256 s calls) :
      e ∈ replyEvents sha256 s (calls ++ [call]) := by
    rw [replyEvents_concat]
    exact List.mem_append_left _ member
  refine ⟨?_, ?_⟩
  · intro e member e' member' different
    rw [← same member, ← same member'] at different
    exact separates.apart e (later member) e' (later member') different
  · intro e member e' member' equal
    rw [← same member, ← same member'] at equal
    exact separates.together e (later member) e' (later member') equal

/-- A reply that shares its epoch with another transaction shows it. -/
theorem Separates.paced
    {sha256 : Bytes → String}
    {s : ConnectionState}
    {calls : List Call}
    {call : Call}
    (recorded : Recorded sha256 s calls)
    (permitted : (run calls).permits call)
    (separates : Separates sha256 s (calls ++ [call])) :
    (run calls).Paced call := by
  cases call with
  | frontend f =>
      trivial
  | forwarded =>
      trivial
  | backend f =>
      intro reply starts
      obtain ⟨waits, valid⟩ := permitted reply
      have extended := extends_step (run calls) (.backend f)
      by_contra notAlone
      have first := recorded.agrees.first
      have answeredOne : 0 < (run calls).statuses.length := by
        apply Nat.pos_of_ne_zero
        intro none
        rw [none] at notAlone waits
        cases sent : (run calls).alone[0]? with
        | none =>
            rw [List.getElem?_eq_none_iff] at sent
            omega
        | some b =>
            cases b with
            | true =>
                exact notAlone sent
            | false =>
                exact first sent
      -- The cycle in front and the one before it carry the same epoch.
      obtain ⟨e, raised⟩ := exists_raised reply valid (s.observe sha256 calls)
      have located := recorded.replied permitted raised
      obtain ⟨e', seen, isBefore⟩ :=
        recorded.answered ((run calls).statuses.length - 1) (by omega)
      have isCycle : e'.queryCycle = (run calls).statuses.length := by omega
      have notAllocates :
          ¬ (run calls).Allocates (run calls).statuses.length :=
        fun allocates => notAlone allocates.1
      have sameEpoch : e.transactionEpoch = e'.transactionEpoch := by
        rw [located.epoch, (recorded.located e' seen).epoch, isCycle]
        exact Nat.count_succ_eq_count_iff.mpr notAllocates
      have different :
          (run (calls ++ [.backend f])).transaction e.queryCycle ≠
            (run (calls ++ [.backend f])).transaction e'.queryCycle := by
        rw [run_concat, located.queryCycle, isCycle,
          extended.transaction_eq (Nat.le_refl _),
          extended.transaction_eq (Nat.le_succ _)]
        exact Nat.ne_of_gt (Nat.count_lt_count_succ_iff.mpr starts)
      refine separates.apart e ?_ e' ?_ different sameEpoch
      · rw [replyEvents_concat]
        exact List.mem_append_right _ raised
      · rw [replyEvents_concat]
        exact List.mem_append_left _ seen

theorem paced_of_separates
    {sha256 : Bytes → String}
    {s : ConnectionState}
    (initial : Recorded sha256 s [])
    {calls : List Call}
    (permitted : Machine.Permitted permits step {} calls)
    (separates : Separates sha256 s calls) :
    Machine.Permitted Paced step {} calls := by
  induction calls using List.reverseRecOn with
  | nil =>
      trivial
  | append_singleton before call inductionHypothesis =>
      obtain ⟨earlier, last⟩ := Machine.permitted_append.mp permitted
      have recorded := recorded_run initial earlier
      refine Machine.permitted_append.mpr
        ⟨inductionHypothesis earlier (separates.before recorded), ?_, trivial⟩
      exact separates.paced recorded last.1

/--
Transaction epochs.  In every causal session of queries, whatever the depth of
pipelining and the interleaving, the epochs on the events of the replies tell
the transactions apart if and only if every query that the server executes from
idle was sent when nothing was unanswered.
-/
theorem epochs_separate_transactions
    (sha256 : Bytes → String)
    (id : Nat)
    (startup : StartupMetadata)
    (greeting : List Frame)
    (greets : ∀ f ∈ greeting, ∀ status ∈ readyStatus f, status = .idle)
    (calls : List Call)
    (permitted : Machine.Permitted permits step {} calls) :
    Separates sha256 (greeted sha256 id startup greeting) calls ↔
      Machine.Permitted Paced step {} calls := by
  have initial := recorded_start sha256 id startup greets
  exact ⟨paced_of_separates initial permitted,
    separates_of_paced initial permitted⟩

instance decidablePermits (l : Ledger) :
    (call : Call) → Decidable (l.permits call)
  | .frontend f => inferInstanceAs (Decidable (f.frontendTag = .query))
  | .forwarded => inferInstanceAs (Decidable True)
  | .backend f =>
      inferInstanceAs (Decidable (isReply f.backendTag = true →
        l.statuses.length < l.alone.length ∧
          (f.backendTag = .readyForQuery → (readyStatus f).isSome = true)))

instance decidablePaced (l : Ledger) :
    (call : Call) → Decidable (l.Paced call)
  | .frontend _ => inferInstanceAs (Decidable True)
  | .forwarded => inferInstanceAs (Decidable True)
  | .backend f =>
      inferInstanceAs (Decidable (isReply f.backendTag = true →
        l.Starts l.statuses.length →
        l.alone[l.statuses.length]? = some true))

/-- One statement and its answer. -/
def querySent (sql : String) : Call :=
  .frontend (message 'Q' (ascii sql ++ [0]))

/-- The reply to a completed query. -/
def queryAnswered (tag status : String) : List Call :=
  [.backend (message 'C' (ascii tag ++ [0])),
    .backend (message 'Z' (ascii status))]

/-- A transaction pipelined in one go, and a query behind it. -/
def pipelinedTransaction : List Call :=
  [querySent "BEGIN", querySent "INSERT INTO t VALUES (1)",
    querySent "COMMIT"] ++
    queryAnswered "BEGIN" "T" ++ queryAnswered "INSERT 0 1" "T" ++
    queryAnswered "COMMIT" "I" ++
    [querySent "SELECT 1"] ++ queryAnswered "SELECT 1" "I"

theorem epochs_separate_pipelinedTransaction :
    Separates sampleSha256
      (greeted sampleSha256 1 default [message 'Z' (ascii "I")])
      pipelinedTransaction := by
  refine (epochs_separate_transactions sampleSha256 1 default
    [message 'Z' (ascii "I")] ?_ pipelinedTransaction ?_).mpr ?_
  · decide
  · decide +kernel
  · decide +kernel

/-- Two queries without a transaction block, the second sent too early. -/
def pipelinedSelects : List Call :=
  [querySent "SELECT 1", querySent "SELECT 2"] ++
    queryAnswered "SELECT 1" "I" ++ queryAnswered "SELECT 1" "I"

/-- Two implicit transactions share one epoch. -/
theorem epochs_shared_pipelinedSelects :
    ¬ ∀ (sha256 : Bytes → String) (id : Nat) (startup : StartupMetadata)
        (greeting : List Frame) (calls : List Call),
        (∀ f ∈ greeting, ∀ status ∈ readyStatus f, status = .idle) →
        Machine.Permitted permits step {} calls →
        Separates sha256 (greeted sha256 id startup greeting) calls := by
  intro claim
  have separates :=
    claim sampleSha256 1 default [message 'Z' (ascii "I")] pipelinedSelects
      (by decide) (by decide +kernel)
  have apart := separates.apart
  revert apart
  decide +kernel

end Ledger

end Pgfault
