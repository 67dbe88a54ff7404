import Pgfault.CycleHistory

namespace Pgfault

open Queue ConnectionState

/-!
# Cycle alignment under pipelining

A client sends groups without waiting: one `Query`, or extended frames up to a
`Sync`.  A server answers the groups in order and ends each answer with one
`ReadyForQuery`.  `Pipeline` counts both sides of such a session, and `permits`
says which call may come next.  Whatever the interleaving, the observer's queue
holds the begun and unanswered groups, in order and under their ordinals.
-/

/-- Whether a client frame asks for a `ReadyForQuery`. -/
def Frame.terminates (f : Frame) : Bool :=
  f.frontendTag = .query ∨ f.frontendTag = .sync

/-- One event of a session: a call of the observer, or a silent server. -/
inductive Move where
  | client (f : Frame)
  | forwarded
  | server (f : Frame)
  /-- The server takes a frame up and sends no reply. -/
  | discard

/-- How far client and server of one session have come. -/
structure Pipeline where
  /-- Groups the client has sent completely. -/
  sent : Nat := 0
  /-- Frames of the group that is being sent. -/
  current : List Frame := []
  /-- Groups the server has answered completely. -/
  answered : Nat := 0

namespace Pipeline

/-- The extended frames of a group in front of its `Sync`. -/
def isExtended (tag : FrontendTag) : Bool :=
  tag = .parse ∨ tag = .bind ∨ tag = .describe ∨ tag = .execute ∨
    tag = .close ∨ tag = .flush

/-- Whether the current group has a frame that creates a cycle. -/
def opened (p : Pipeline) : Bool :=
  p.current.any fun f => (touch f).isSome

/-- Groups begun by a frame that creates a cycle. -/
def begun (p : Pipeline) : Nat :=
  p.sent + if p.opened then 1 else 0

/--
Which calls may come next.  A `Query` stands alone and `ReadyForQuery` needs a
complete group.  A row or a completed command needs an `Execute` if the group
that is being answered is still being sent; nothing is asked of what a complete
group holds, and all other server frames may come at any time, so a real server
does less than this.
-/
def permits (p : Pipeline) : Call → Prop
  | .forwarded => True
  | .frontend f =>
      f.frontendTag = .query ∧ p.current = [] ∨
        isExtended f.frontendTag = true ∨ f.frontendTag = .sync
  | .backend f =>
      (f.backendTag = .readyForQuery →
          p.answered < p.sent ∧ (readyStatus f).isSome = true) ∧
        (f.backendTag = .dataRow ∨ f.backendTag = .commandComplete →
          p.answered < p.sent ∨
            ∃ g ∈ p.current, g.frontendTag = .execute)

/-- Count one call. -/
def step (p : Pipeline) : Call → Pipeline
  | .forwarded => p
  | .frontend f =>
      if f.frontendTag = .query ∨ f.frontendTag = .sync then
        { p with sent := p.sent + 1, current := [] }
      else
        { p with current := p.current ++ [f] }
  | .backend f =>
      if f.backendTag = .readyForQuery then
        { p with answered := p.answered + 1 }
      else
        p

/-- The session after some calls. -/
def run (p : Pipeline) (calls : List Call) : Pipeline :=
  Machine.run step p calls

/-- Every call of a session is permitted when it comes. -/
def Causal (p : Pipeline) (calls : List Call) : Prop :=
  Machine.Permitted permits step p calls

instance decidablePermits (p : Pipeline) :
    (call : Call) → Decidable (p.permits call)
  | .forwarded => inferInstanceAs (Decidable True)
  | .frontend f =>
      inferInstanceAs (Decidable (f.frontendTag = .query ∧ p.current = [] ∨
        isExtended f.frontendTag = true ∨ f.frontendTag = .sync))
  | .backend f =>
      inferInstanceAs (Decidable ((f.backendTag = .readyForQuery →
          p.answered < p.sent ∧ (readyStatus f).isSome = true) ∧
        (f.backendTag = .dataRow ∨ f.backendTag = .commandComplete →
          p.answered < p.sent ∨
            ∃ g ∈ p.current, g.frontendTag = .execute)))

instance (p : Pipeline) (calls : List Call) : Decidable (p.Causal calls) :=
  inferInstanceAs (Decidable (Machine.Permitted permits step p calls))

end Pipeline

namespace ConnectionState

/-- The observer after some calls. -/
def observe
    (sha256 : Bytes → String)
    (s : ConnectionState)
    (calls : List Call) : ConnectionState :=
  Machine.run (fun t call => (History.called sha256 t call).2) s calls

/-- The observer once the server has greeted the client. -/
def greeted
    (sha256 : Bytes → String)
    (id : Nat)
    (startup : StartupMetadata)
    (greeting : List Frame) : ConnectionState :=
  (new id startup).observe sha256 (greeting.map Call.backend)

/-- The state after a call, apart from the counters. -/
def moves
    (sha256 : Bytes → String)
    (s : ConnectionState) : Call → ConnectionState
  | .forwarded => s
  | .frontend f => s.accept sha256 f
  | .backend f => s.advance f

theorem called_state
    (sha256 : Bytes → String)
    (s : ConnectionState)
    (call : Call) :
    ∃ counters,
      (History.called sha256 s call).2 =
        (s.moves sha256 call).recount counters := by
  cases call with
  | frontend f =>
      exact ⟨_, frontend_state sha256 s f⟩
  | forwarded =>
      exact ⟨s.forwarded.2.counters, rfl⟩
  | backend f =>
      exact ⟨_, backend_state s f⟩

/-- A server frame does nothing to an empty queue. -/
theorem empty_of_backend
    {s : ConnectionState}
    (empty : s.cycles = [] ∧ s.nextCycle = 0)
    (f : Frame) :
    (s.backend f).2.cycles = [] ∧ (s.backend f).2.nextCycle = 0 := by
  rw [backend_state, recount_cycles, recount_nextCycle, advance_nextCycle]
  refine ⟨?_, empty.2⟩
  cases ready : readyStatus f with
  | none =>
      rw [advance_cycles_of_open s ready, empty.1]
      rfl
  | some status =>
      rw [advance_cycles_of_ready s ready, empty.1]
      rfl

/-- No cycle has been created when the server has greeted the client. -/
theorem greeted_empty
    (sha256 : Bytes → String)
    (id : Nat)
    (startup : StartupMetadata)
    (greeting : List Frame) :
    (greeted sha256 id startup greeting).cycles = [] ∧
      (greeted sha256 id startup greeting).nextCycle = 0 := by
  have silent
      (frames : List Frame)
      (s : ConnectionState)
      (empty : s.cycles = [] ∧ s.nextCycle = 0) :
      (s.observe sha256 (frames.map Call.backend)).cycles = [] ∧
        (s.observe sha256 (frames.map Call.backend)).nextCycle = 0 := by
    induction frames generalizing s with
    | nil =>
        exact empty
    | cons f rest inductionHypothesis =>
        exact inductionHypothesis _ (empty_of_backend empty f)
  exact silent greeting (new id startup) ⟨rfl, rfl⟩

end ConnectionState

/-! ## Client frames that end a group -/

theorem terminates_iff {f : Frame} :
    f.terminates = true ↔ f.frontendTag = .query ∨ f.frontendTag = .sync := by
  simp [Frame.terminates]

/-- A frame that asks for a `ReadyForQuery` works on a cycle. -/
theorem touch_of_terminates
    {f : Frame}
    (terminates : f.terminates = true) :
    touch f = some ⟨f.frontendTag = .sync, f.frontendTag = .sync⟩ := by
  rcases terminates_iff.mp terminates with query | sync
  · simp [touch, query]
  · simp [touch, sync]

/-- The other frames that work on a cycle leave it open. -/
theorem touch_of_not_terminates
    {f : Frame}
    (goesOn : f.terminates = false)
    {how : Touch}
    (touches : touch f = some how) :
    how = ⟨true, false⟩ := by
  unfold Frame.terminates at goesOn
  unfold touch at touches
  cases tag : f.frontendTag <;> simp [tag] at touches goesOn
  all_goals
    first
      | exact touches.symm
      | exact touches.2.symm

namespace Pipeline

/-- The queue of the observer against the counts of the session. -/
structure Aligned (s : ConnectionState) (p : Pipeline) : Prop where
  numbered : Numbered s
  nextCycle : s.nextCycle = p.begun
  length : s.cycles.length + p.answered = p.begun
  answered : p.answered ≤ p.sent
  starts : s.startsCycle true = !p.opened

/-- The counters play no part. -/
theorem Aligned.recount
    {s : ConnectionState}
    {p : Pipeline}
    (aligned : Aligned s p)
    (counters : String → Nat) :
    Aligned (s.recount counters) p :=
  ⟨aligned.numbered.recount counters, aligned.nextCycle, aligned.length,
    aligned.answered, aligned.starts⟩

theorem begun_le (p : Pipeline) : p.sent ≤ p.begun :=
  Nat.le_add_right _ _

theorem begun_of_opened
    {p : Pipeline}
    (opened : p.opened = true) :
    p.begun = p.sent + 1 := by
  simp [begun, opened]

theorem begun_of_unopened
    {p : Pipeline}
    (unopened : p.opened = false) :
    p.begun = p.sent := by
  simp [begun, unopened]

/-- An extended frame in front of `Sync` opens a cycle or nothing. -/
theorem touch_of_isExtended
    {f : Frame}
    (extended : isExtended f.frontendTag = true) :
    touch f = none ∨ touch f = some ⟨true, false⟩ := by
  unfold touch
  cases tag : f.frontendTag <;> simp [tag, isExtended] at extended ⊢

/-- A frame that works on a cycle leaves one more group begun than sent. -/
theorem Aligned.of_touch
    {s t : ConnectionState}
    {p q : Pipeline}
    {how : Touch}
    (aligned : Aligned s p)
    (numbered : Numbered t)
    (counted : Counted (some how) s t)
    (pushed : p.begun + s.pushes (some how) = p.sent + 1)
    (begun : q.begun = p.sent + 1)
    (answered : q.answered = p.answered)
    (sent : p.sent ≤ q.sent)
    (opened : q.opened = !(how.seals || !how.extended)) :
    Aligned t q where
  numbered := numbered
  nextCycle := by
    have next := counted.nextCycle
    have before := aligned.nextCycle
    omega
  length := by
    have length := counted.length
    have before := aligned.length
    omega
  answered := by
    have before := aligned.answered
    omega
  starts := by
    rw [counted.starts, opened, Bool.not_not]
    rfl

/-- Extended frames push a cycle exactly where the group has none. -/
theorem Aligned.begun_add_pushes
    {s : ConnectionState}
    {p : Pipeline}
    (aligned : Aligned s p)
    (seals : Bool) :
    p.begun + s.pushes (some ⟨true, seals⟩) = p.sent + 1 := by
  cases opened : p.opened with
  | true =>
      rw [begun_of_opened opened]
      simp [pushes, aligned.starts, opened]
  | false =>
      rw [begun_of_unopened opened]
      simp [pushes, aligned.starts, opened]

/-- A client frame of the current group keeps the alignment. -/
theorem Aligned.frontend
    {s : ConnectionState}
    {p : Pipeline}
    (aligned : Aligned s p)
    (sha256 : Bytes → String)
    {f : Frame}
    (permitted : p.permits (.frontend f)) :
    Aligned (s.accept sha256 f) (p.step (.frontend f)) := by
  have counted := accept_counted sha256 s f
  have numbered := aligned.numbered.accept sha256 f
  rcases permitted with ⟨query, alone⟩ | extended | sync
  · have touches : touch f = some ⟨false, false⟩ := by simp [touch, query]
    have stepped :
        p.step (.frontend f) =
          { p with sent := p.sent + 1, current := [] } := by
      simp [step, query]
    have unopened : p.opened = false := by simp [opened, alone]
    rw [touches] at counted
    rw [stepped]
    refine aligned.of_touch numbered counted ?_ rfl rfl (Nat.le_succ _) rfl
    rw [begun_of_unopened unopened]
    rfl
  · have stepped :
        p.step (.frontend f) = { p with current := p.current ++ [f] } := by
      refine if_neg ?_
      intro either
      rcases either with tag | tag <;> simp [isExtended, tag] at extended
    rw [stepped]
    rcases touch_of_isExtended extended with untouched | touches
    · rw [untouched] at counted
      have same :
          opened { p with current := p.current ++ [f] } = p.opened := by
        simp [opened, untouched]
      have sameBegun :
          begun { p with current := p.current ++ [f] } = p.begun := by
        simp [begun, same]
      refine ⟨numbered, ?_, ?_, aligned.answered, ?_⟩
      · rw [sameBegun, counted.nextCycle, aligned.nextCycle]
        rfl
      · rw [sameBegun, counted.length, ← aligned.length]
        rfl
      · rw [same, counted.starts, ← aligned.starts]
        rfl
    · rw [touches] at counted
      have now :
          opened { p with current := p.current ++ [f] } = true := by
        simp [opened, touches]
      exact aligned.of_touch numbered counted (aligned.begun_add_pushes false)
        (begun_of_opened now) rfl (Nat.le_refl _) now
  · have touches : touch f = some ⟨true, true⟩ := by simp [touch, sync]
    have stepped :
        p.step (.frontend f) =
          { p with sent := p.sent + 1, current := [] } := by
      simp [step, sync]
    rw [touches] at counted
    rw [stepped]
    exact aligned.of_touch numbered counted (aligned.begun_add_pushes true)
      rfl rfl (Nat.le_succ _) rfl

/-- A server frame keeps the alignment. -/
theorem Aligned.backend
    {s : ConnectionState}
    {p : Pipeline}
    (aligned : Aligned s p)
    {f : Frame}
    (permitted : p.permits (.backend f)) :
    Aligned (s.advance f) (p.step (.backend f)) := by
  obtain ⟨numbered, nextCycle, length, answered, starts⟩ := aligned
  have numberedAfter := numbered.advance f
  by_cases ready : f.backendTag = .readyForQuery
  · obtain ⟨isSent, known⟩ := permitted.1 ready
    obtain ⟨status, isStatus⟩ := Option.isSome_iff_exists.mp known
    have cycles := advance_cycles_of_ready s isStatus
    have sentBegun := begun_le p
    have stepped :
        p.step (.backend f) = { p with answered := p.answered + 1 } := by
      simp [step, ready]
    have sameBegun :
        begun { p with answered := p.answered + 1 } = p.begun := rfl
    rw [stepped]
    refine ⟨numberedAfter, ?_, ?_, isSent, ?_⟩
    · rw [advance_nextCycle, nextCycle]
      rfl
    · rw [cycles, List.length_tail, sameBegun]
      simp only
      omega
    · by_cases last : s.cycles.tail = []
      · -- Every begun group is answered, so the client is between groups.
        have oneLeft : s.cycles.length ≤ 1 := by
          have shorter := congrArg List.length last
          simp only [List.length_tail, List.length_nil] at shorter
          omega
        have unopened : p.opened = false := by
          by_contra opened
          have begun := begun_of_opened (by simpa using opened)
          omega
        have emptied : (s.advance f).startsCycle true = true := by
          simp [startsCycle, cycles, last]
        rw [emptied]
        have sameOpened :
            opened { p with answered := p.answered + 1 } = p.opened := rfl
        rw [sameOpened, unopened]
        rfl
      · rw [startsCycle_advance (Or.inr last), starts]
        rfl
  · have open_ : readyStatus f = none := by simp [readyStatus, ready]
    have stepped : p.step (.backend f) = p := by simp [step, ready]
    rw [stepped]
    refine ⟨numberedAfter, ?_, ?_, answered, ?_⟩
    · rw [advance_nextCycle, nextCycle]
    · rw [advance_cycles_of_open s open_, length_modifyFront]
      exact length
    · rw [startsCycle_advance (Or.inl open_), starts]

/-- One permitted call keeps the alignment. -/
theorem Aligned.call
    {s : ConnectionState}
    {p : Pipeline}
    (aligned : Aligned s p)
    (sha256 : Bytes → String)
    {call : Call}
    (permitted : p.permits call) :
    Aligned (History.called sha256 s call).2 (p.step call) := by
  obtain ⟨counters, state⟩ := called_state sha256 s call
  rw [state]
  refine Aligned.recount ?_ counters
  cases call with
  | frontend f =>
      exact aligned.frontend sha256 permitted
  | forwarded =>
      exact aligned
  | backend f =>
      exact aligned.backend permitted

/-- A server that only talks leaves the queue empty. -/
theorem aligned_greeted
    (sha256 : Bytes → String)
    (id : Nat)
    (startup : StartupMetadata)
    (greeting : List Frame) :
    Aligned (greeted sha256 id startup greeting) {} := by
  obtain ⟨cycles, nextCycle⟩ := greeted_empty sha256 id startup greeting
  refine ⟨⟨by simp [cycles], by simp [cycles]⟩, nextCycle, ?_, Nat.le_refl 0,
    ?_⟩
  · rw [cycles]
    rfl
  · simp [startsCycle, cycles, opened]

/-- Every causal session keeps the alignment. -/
theorem aligned_run
    (sha256 : Bytes → String)
    {s : ConnectionState}
    {p : Pipeline}
    (aligned : Aligned s p)
    {calls : List Call}
    (causal : p.Causal calls) :
    Aligned (s.observe sha256 calls) (p.run calls) := by
  induction calls generalizing s p with
  | nil =>
      exact aligned
  | cons call later inductionHypothesis =>
      exact inductionHypothesis (aligned.call sha256 causal.1) causal.2

/-- An unanswered group keeps its cycle in front. -/
theorem Aligned.front_id
    {s : ConnectionState}
    {p : Pipeline}
    (aligned : Aligned s p)
    {c : Cycle}
    (front : s.cycles.head? = some c) :
    c.id = p.answered + 1 := by
  have number := aligned.numbered.front_id front
  have length := aligned.length
  have nextCycle := aligned.nextCycle
  omega

/-- A permitted answer finds a cycle in front. -/
theorem Aligned.answered_lt_begun
    {s : ConnectionState}
    {p : Pipeline}
    (aligned : Aligned s p)
    {f : Frame}
    (permitted : p.permits (.backend f))
    (answers :
      f.backendTag = .dataRow ∨ f.backendTag = .commandComplete ∨
        f.backendTag = .readyForQuery) :
    p.answered < p.begun := by
  have sentBegun := begun_le p
  have byRow
      (reply : f.backendTag = .dataRow ∨ f.backendTag = .commandComplete) :
      p.answered < p.begun := by
    rcases permitted.2 reply with complete | ⟨g, member, execute⟩
    · omega
    · have opened : p.opened = true := by
        refine List.any_eq_true.mpr ⟨g, member, ?_⟩
        simp [touch, execute]
      have begun := begun_of_opened opened
      have answered := aligned.answered
      omega
  rcases answers with row | complete | ready
  · exact byRow (Or.inl row)
  · exact byRow (Or.inr complete)
  · have isSent := (permitted.1 ready).1
    omega

/-- Events of an answer name the group that is being answered. -/
theorem Aligned.backend_cycle
    {s : ConnectionState}
    {p : Pipeline}
    (aligned : Aligned s p)
    {f : Frame}
    (permitted : p.permits (.backend f))
    (answers :
      f.backendTag = .dataRow ∨ f.backendTag = .commandComplete ∨
        f.backendTag = .readyForQuery)
    {e : Event}
    (member : e ∈ (s.backend f).1) :
    e.queryCycle = p.answered + 1 := by
  have waits := aligned.answered_lt_begun permitted answers
  have length := aligned.length
  cases front : s.cycles.head? with
  | none =>
      rw [List.head?_eq_none_iff] at front
      rw [front, List.length_nil] at length
      omega
  | some c =>
      have located := congrArg Coordinates.queryCycle (mem_backend member).2.1
      have isFront : e.queryCycle = c.id := by
        simpa [Event.coordinates, ConnectionState.coordinates, referenced,
          front] using located
      rw [isFront, aligned.front_id front]

/-- Events of a client frame name the group it belongs to. -/
theorem Aligned.frontend_cycle
    {s : ConnectionState}
    {p : Pipeline}
    (aligned : Aligned s p)
    (sha256 : Bytes → String)
    {f : Frame}
    (permitted : p.permits (.frontend f))
    {e : Event}
    (member : e ∈ (s.frontend sha256 f).1) :
    e.queryCycle = p.sent + 1 := by
  have after := aligned.frontend sha256 permitted
  have raises :
      f.frontendTag = .query ∨ f.frontendTag = .execute ∨
        f.frontendTag = .sync := by
    have named := (mem_frontend member).1
    unfold receive at named
    cases tag : f.frontendTag <;> simp [tag] at named ⊢
  have begun : (p.step (.frontend f)).begun = p.sent + 1 := by
    rcases raises with query | execute | sync
    · simp [step, query, Pipeline.begun, opened]
    · simp [step, execute, Pipeline.begun, opened, touch]
    · simp [step, sync, Pipeline.begun, opened]
  have sameAnswered : (p.step (.frontend f)).answered = p.answered := by
    simp only [step]
    split <;> rfl
  have nextCycle := after.nextCycle
  have length := after.length
  have answered := aligned.answered
  cases back : (s.accept sha256 f).cycles.getLast? with
  | none =>
      rw [List.getLast?_eq_none_iff] at back
      rw [back, List.length_nil] at length
      omega
  | some c =>
      have located :=
        congrArg Coordinates.queryCycle (mem_frontend member).2.1
      have isBack : e.queryCycle = c.id := by
        simpa [Event.coordinates, ConnectionState.coordinates, referenced,
          back] using located
      rw [isBack, after.numbered.back_id back, nextCycle, begun]

/--
Cycle alignment.  After every causal session that follows the greeting, one
cycle has been created for each begun group; the queue holds the cycles of the
begun and unanswered groups under their ordinals, in order; and the events of
the next call name the group that is being sent or answered.
-/
theorem pipelined_cycle_alignment
    (sha256 : Bytes → String)
    (id : Nat)
    (startup : StartupMetadata)
    (greeting : List Frame)
    (calls : List Call)
    (causal : Causal {} calls) :
    let s := (greeted sha256 id startup greeting).observe sha256 calls
    let p := run {} calls
    s.nextCycle = p.begun ∧
      s.cycles.map Cycle.id =
        List.range' (p.answered + 1) (p.begun - p.answered) ∧
      (∀ c, s.cycles.head? = some c → c.id = p.answered + 1) ∧
      s.cycles.length = p.begun - p.answered ∧
      (∀ f e,
        p.permits (.backend f) →
        f.backendTag = .dataRow ∨ f.backendTag = .commandComplete ∨
          f.backendTag = .readyForQuery →
        e ∈ (s.backend f).1 →
        e.queryCycle = p.answered + 1) ∧
      (∀ f e,
        p.permits (.frontend f) →
        e ∈ (s.frontend sha256 f).1 →
        e.queryCycle = p.sent + 1) := by
  intro s p
  have aligned : Aligned s p :=
    aligned_run sha256 (aligned_greeted sha256 id startup greeting) causal
  have length : s.cycles.length = p.begun - p.answered := by
    have sum := aligned.length
    omega
  refine ⟨aligned.nextCycle, ?_, fun c front => aligned.front_id front,
    length, ?_, ?_⟩
  · have begins : s.nextCycle - s.cycles.length = p.answered := by
      have sum := aligned.length
      have nextCycle := aligned.nextCycle
      omega
    rw [aligned.numbered.ids, begins, length]
  · intro f e permitted answers member
    exact aligned.backend_cycle permitted answers member
  · intro f e permitted member
    exact aligned.frontend_cycle sha256 permitted member

/-- A pipelined session: a query and an extended group, the first answered. -/
def pipelinedQueries : List Call :=
  [.frontend (message 'Q' (ascii "SELECT 1" ++ [0])),
    .frontend (message 'P' ([0] ++ ascii "SELECT 2" ++ [0, 0, 0])),
    .frontend (message 'B' [0, 0, 0, 0, 0, 0, 0, 0]),
    .backend (message 'C' (ascii "SELECT 1" ++ [0])),
    .frontend (message 'E' [0, 0, 0, 0, 0]),
    .backend (message 'Z' (ascii "I")),
    .backend (message '1' [])]

theorem pipelined_cycle_alignment_queries :
    let s :=
      (greeted sampleSha256 1 default [message 'Z' (ascii "I")]).observe
        sampleSha256 pipelinedQueries
    s.nextCycle = 2 ∧ s.cycles.map Cycle.id = [2] ∧
      ∀ e ∈ (s.backend (message 'C' (ascii "SELECT 1" ++ [0]))).1,
        e.queryCycle = 2 := by
  obtain ⟨nextCycle, ids, -, -, events, -⟩ :=
    pipelined_cycle_alignment sampleSha256 1 default
      [message 'Z' (ascii "I")] pipelinedQueries (by decide +kernel)
  refine ⟨nextCycle, ids, fun e member => ?_⟩
  exact events _ e (by decide +kernel) (Or.inr (Or.inl (by decide))) member

end Pipeline

end Pgfault
