import Pgfault.EventOrder

namespace Pgfault

open Queue ConnectionState

/-!
# Cycle numbers and row numbers

Cycles are numbered when a client frame creates them and leave the queue in the
same order, so the server's events name them in order.  Rows are counted on the
front cycle and start again with every result.  Both hold for arbitrary frames
in any order, replies without a cycle among them.
-/

namespace ConnectionState

/-! ## Cycle numbers -/

/-- A server event names the front cycle, or no cycle when none is open. -/
theorem queryCycle_of_backend
    {s : ConnectionState}
    (numbered : Numbered s)
    {f : Frame}
    {e : Event}
    (member : e ∈ (s.backend f).1) :
    e.queryCycle = 0 ∨ e.queryCycle = History.ended s + 1 := by
  have cycle := congrArg Coordinates.queryCycle (mem_backend member).2.1
  simp only [Event.coordinates, coordinates, referenced, Bool.false_eq_true,
    if_false] at cycle
  cases front : s.cycles.head? with
  | none =>
      left
      simpa [front] using cycle
  | some c =>
      right
      rw [front, Option.map_some, Option.getD_some] at cycle
      exact cycle.trans (numbered.front_id front)

/-- The events `backend` returns along some calls, in order. -/
def serverEvents
    (sha256 : Bytes → String)
    (s : ConnectionState) : List Call → List Event
  | [] => []
  | .backend f :: later =>
      (s.backend f).1 ++ serverEvents sha256 (s.backend f).2 later
  | call :: later =>
      serverEvents sha256 (History.called sha256 s call).2 later

/-- Later server events name the present front cycle or a later one. -/
theorem ended_lt_of_serverEvents
    {sha256 : Bytes → String}
    {s : ConnectionState}
    (numbered : Numbered s)
    {calls : List Call}
    {e : Event}
    (member : e ∈ s.serverEvents sha256 calls)
    (named : e.queryCycle ≠ 0) :
    History.ended s < e.queryCycle := by
  induction calls generalizing s with
  | nil =>
      simp [serverEvents] at member
  | cons call later inductionHypothesis =>
      have behind
          (member :
            e ∈ (History.called sha256 s call).2.serverEvents sha256 later) :
          History.ended s < e.queryCycle :=
        Nat.lt_of_le_of_lt (History.ended_called numbered sha256 call)
          (inductionHypothesis (History.numbered_called numbered sha256 call)
            member)
      cases call with
      | backend f =>
          rcases List.mem_append.mp member with now | after
          · rcases queryCycle_of_backend numbered now with none | front
            · exact absurd none named
            · rw [front]
              exact Nat.lt_succ_self _
          · exact behind after
      | frontend f =>
          exact behind member
      | forwarded =>
          exact behind member

/-- The cycle numbers of the server's events never decrease. -/
theorem serverEvents_ordered
    (sha256 : Bytes → String)
    {s : ConnectionState}
    (numbered : Numbered s)
    (calls : List Call) :
    (s.serverEvents sha256 calls).Pairwise fun a b =>
      a.queryCycle ≠ 0 → b.queryCycle ≠ 0 → a.queryCycle ≤ b.queryCycle := by
  induction calls generalizing s with
  | nil =>
      exact List.Pairwise.nil
  | cons call later inductionHypothesis =>
      have behind :=
        inductionHypothesis (History.numbered_called numbered sha256 call)
      cases call with
      | backend f =>
          have front {a : Event} (member : a ∈ (s.backend f).1)
              (named : a.queryCycle ≠ 0) :
              a.queryCycle = History.ended s + 1 :=
            (queryCycle_of_backend numbered member).resolve_left named
          refine List.pairwise_append.mpr ⟨?_, behind, ?_⟩
          · refine List.pairwise_of_forall_mem_list ?_
            intro a isA b isB namedA namedB
            rw [front isA namedA, front isB namedB]
          · intro a isA b isB namedA namedB
            rw [front isA namedA]
            exact Nat.lt_of_le_of_lt
              (History.ended_called numbered sha256 (.backend f))
              (ended_lt_of_serverEvents
                (History.numbered_called numbered sha256 (.backend f))
                isB namedB)
      | frontend f =>
          exact behind
      | forwarded =>
          exact behind

/-! ## Row numbers -/

/-- Only rows count, and only a completed or suspended result starts again. -/
theorem answer_rows (f : Frame) (c : Cycle) :
    (answer f c).rows =
      if f.backendTag = .commandComplete ∨ f.backendTag = .portalSuspended then
        0
      else if f.backendTag = .dataRow then
        c.rows + 1
      else
        c.rows := by
  unfold answer
  cases f.backendTag <;>
    simp [completeCommand, suspendPortal, popStatement_eq]

end ConnectionState

namespace Handled

/-- Whether a frame ends a result: `CommandComplete` or `PortalSuspended`. -/
def endsResult (x : Handled) : Bool :=
  x.frame.backendTag == .commandComplete ||
    x.frame.backendTag == .portalSuspended

/-- Whether a frame is a `DataRow`. -/
def isRow (x : Handled) : Bool :=
  x.frame.backendTag == .dataRow

end Handled

namespace History

/-- The rows among some frames behind the last one that ended a result. -/
def rowsOfResult (handled : List Handled) : Nat :=
  (handled.reverse.takeWhile fun x => !x.endsResult).countP Handled.isRow

theorem rowsOfResult_concat
    (handled : List Handled)
    (x : Handled) :
    rowsOfResult (handled ++ [x]) =
      if x.endsResult then 0
      else if x.isRow then rowsOfResult handled + 1
      else rowsOfResult handled := by
  unfold rowsOfResult
  rw [List.reverse_concat]
  cases ends : x.endsResult with
  | true =>
      simp [ends]
  | false =>
      cases row : x.isRow <;> simp [ends, row]

/-- The row counter of the front cycle counts the rows of the current result. -/
structure RowHistory (h : History) : Prop where
  numbered : Numbered h.state
  untouched : ∀ c ∈ h.state.cycles.tail, c.rows = 0
  front :
    ∀ c,
      h.state.cycles.head? = some c →
      c.rows = rowsOfResult h.sinceFront

theorem rowHistory_start
    (id : Nat)
    (startup : StartupMetadata) :
    RowHistory (start id startup) where
  numbered := numbered_new id startup
  untouched := by simp [start, ConnectionState.new]
  front := by simp [start, ConnectionState.new]

theorem RowHistory.frontend
    {sha256 : Bytes → String}
    {h : History}
    (history : RowHistory h)
    (f : Frame) :
    RowHistory (h.step sha256 (.frontend f)) := by
  refine ⟨numbered_called history.numbered sha256 (.frontend f), ?_, ?_⟩
  · intro d member
    rw [step_frontend_cycles] at member
    rcases (accept_grows sha256 h.state f).behind member with
        ⟨c, source, grows⟩ | ⟨extended, grows⟩
    · rw [grows.rows]
      exact history.untouched c source
    · exact grows.rows
  · intro d isFront
    rcases front_frontend isFront with
        ⟨c, wasFront, grows, sameFrames⟩ | ⟨⟨extended, grows⟩, noFrames⟩
    · rw [sameFrames, grows.rows]
      exact history.front c wasFront
    · rw [noFrames]
      exact grows.rows

theorem RowHistory.backend
    {sha256 : Bytes → String}
    {h : History}
    (history : RowHistory h)
    (f : Frame) :
    RowHistory (h.step sha256 (.backend f)) := by
  refine ⟨numbered_called history.numbered sha256 (.backend f), ?_, ?_⟩
  · intro d member
    rw [step_backend_cycles] at member
    cases ready : readyStatus f with
    | none =>
        rw [advance_cycles_of_open h.state ready, tail_modifyFront] at member
        exact history.untouched d member
    | some status =>
        rw [advance_cycles_of_ready h.state ready] at member
        exact history.untouched d (List.mem_of_mem_tail member)
  · intro d isFront
    cases ready : readyStatus f with
    | none =>
        obtain ⟨c, wasFront, rfl, oneMore⟩ := front_open ready isFront
        rw [oneMore, rowsOfResult_concat, answer_rows,
          history.front c wasFront]
        simp [Handled.endsResult, Handled.isRow]
    | some status =>
        obtain ⟨member, noFrames⟩ :=
          front_ready history.numbered ready isFront
        rw [noFrames]
        exact history.untouched d member

/-- Every call keeps the row counters. -/
theorem RowHistory.step
    {sha256 : Bytes → String}
    {h : History}
    (history : RowHistory h)
    (call : Call) :
    RowHistory (h.step sha256 call) := by
  cases call with
  | frontend f =>
      exact history.frontend f
  | backend f =>
      exact history.backend f
  | forwarded =>
      refine ⟨numbered_called history.numbered sha256 .forwarded,
        history.untouched, ?_⟩
      rw [sinceFront_forwarded]
      exact history.front

theorem rowHistory_run
    (sha256 : Bytes → String)
    (id : Nat)
    (startup : StartupMetadata)
    (calls : List Call) :
    RowHistory (run sha256 id startup calls) :=
  Machine.run_invariant (fun _ call history => history.step call)
    (rowHistory_start id startup) calls

/-- Only `backend` raises rows, with the counter of the front cycle moved on. -/
theorem rowIndex_of_called
    {sha256 : Bytes → String}
    {s : ConnectionState}
    {call : Call}
    {e : Event}
    (member : e ∈ (called sha256 s call).1)
    (isRow : e.event = "result.row") :
    e.rowIndex = s.cycles.head?.map fun c => c.rows + 1 := by
  cases call with
  | forwarded =>
      rw [List.mem_singleton.mp member] at isRow
      change "query.forwarded" = "result.row" at isRow
      exact absurd isRow (by decide)
  | frontend f =>
      have client := receive_clientNames sha256 s f _ (mem_frontend member).1
      rw [isRow] at client
      exact absurd client (by decide)
  | backend f =>
      obtain ⟨-, -, row⟩ := mem_backend_rest member
      rw [row, if_pos isRow]

/--
The queue holds the last consecutive cycle numbers, the server's events name
cycles in order, and every row that has a cycle carries its number within the
current result.
-/
theorem cycles_and_rows_numbered
    (sha256 : Bytes → String)
    (id : Nat)
    (startup : StartupMetadata)
    (calls : List Call) :
    let h := run sha256 id startup calls
    (h.state.cycles.length ≤ h.state.nextCycle ∧
      h.state.cycles.map Cycle.id =
        List.range' (h.state.nextCycle - h.state.cycles.length + 1)
          h.state.cycles.length) ∧
    (((new id startup).serverEvents sha256 calls).map
      Event.queryCycle |>.filter (· ≠ 0)).Pairwise (· ≤ ·) ∧
    ∀ call, ∀ e ∈ (called sha256 h.state call).1,
      e.event = "result.row" →
      h.state.cycles ≠ [] →
      e.rowIndex = some (1 + rowsOfResult h.sinceFront) ∧
        ((∀ x ∈ h.sinceFront.getLast?, x.endsResult = true) →
          e.rowIndex = some 1) := by
  intro h
  have history : RowHistory h := rowHistory_run sha256 id startup calls
  refine ⟨⟨history.numbered.bound, history.numbered.ids⟩, ?_, ?_⟩
  · rw [List.pairwise_filter, List.pairwise_map]
    refine (serverEvents_ordered sha256 (numbered_new id startup) calls).imp ?_
    intro a b ordered namedA namedB
    exact ordered (of_decide_eq_true namedA) (of_decide_eq_true namedB)
  · intro call e member isRow nonempty
    have index := rowIndex_of_called member isRow
    obtain ⟨c, rest, queue⟩ := List.exists_cons_of_ne_nil nonempty
    have isFront : h.state.cycles.head? = some c := by
      rw [queue]
      rfl
    rw [isFront, Option.map_some, history.front c isFront,
      Nat.add_comm] at index
    refine ⟨index, ?_⟩
    intro ended
    rw [index]
    rcases eq_nil_or_concat h.sinceFront with none | ⟨earlier, last, shape⟩
    · rw [none]
      rfl
    · have ends : last.endsResult = true := ended last (by simp [shape])
      rw [shape, rowsOfResult_concat, if_pos ends]

/-- A query and a group with two results, up to the first row of the second. -/
def twoResults : List Call :=
  [message 'Q' (ascii "SELECT 1" ++ [0]),
    message 'P' ([0] ++ ascii "SELECT 1" ++ [0, 0, 0]),
    message 'B' [0, 0, 0, 0, 0, 0, 0, 0], message 'E' [0, 0, 0, 0, 0],
    message 'P' ([0] ++ ascii "SELECT 2" ++ [0, 0, 0]),
    message 'B' [0, 0, 0, 0, 0, 0, 0, 0], message 'E' [0, 0, 0, 0, 0],
    message 'S' []].map Call.frontend ++
  [message 'T' [], message 'D' [], message 'C' (ascii "SELECT 1" ++ [0]),
    message 'Z' (ascii "I"), message '1' [], message '2' [], message 'D' [],
    message 'C' (ascii "SELECT 1" ++ [0]), message '1' [], message '2' [],
    message 'D' []].map Call.backend

theorem cycles_and_rows_numbered_twoResults :
    let h := run sampleSha256 1 default twoResults
    h.state.cycles.map Cycle.id = [2] ∧
      (((new 1 default).serverEvents sampleSha256 twoResults).map
        Event.queryCycle |>.filter (· ≠ 0)).Pairwise (· ≤ ·) ∧
      ∃ e ∈ (called sampleSha256 h.state (.backend (message 'D' []))).1,
        e.event = "result.row" ∧ e.rowIndex = some 2 := by
  intro h
  obtain ⟨⟨-, ids⟩, ordered, rows⟩ :=
    cycles_and_rows_numbered sampleSha256 1 default twoResults
  obtain ⟨e, member, isRow⟩ :=
    exists_backend_event (s := h.state) (f := message 'D' [])
      (List.mem_singleton_self "result.row")
  have index := (rows (.backend (message 'D' [])) e member isRow
    (by decide +kernel)).1
  exact ⟨ids.trans (by decide +kernel), ordered, e, member, isRow,
    index.trans (by decide +kernel)⟩

end History

end Pgfault
