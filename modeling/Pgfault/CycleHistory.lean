import Pgfault.Machine
import Pgfault.Observer

namespace Pgfault

open Queue ConnectionState

/-!
# What the front cycle remembers of the run

The observer keeps a few fields per cycle.  A `History` runs the observer over
any list of calls, with arbitrary frames in any order, and keeps beside it what
those fields stand for: the server frames handled since the current front cycle
became front, the statements recorded for each cycle, and the raised events.

`CycleHistory` relates the two, one call at a time.  The commit soundness
theorem and the agreement of prediction and decision are read off it.
-/

/-- One call of the observer. -/
inductive Call where
  | frontend (f : Frame)
  | forwarded
  | backend (f : Frame)
  deriving DecidableEq

/-- A server frame together with the state it was handled in. -/
structure Handled where
  state : ConnectionState
  frame : Frame

namespace Handled

/-- The statement a reply frame belongs to, as the observer sees it. -/
def answered (h : Handled) : Statement :=
  (h.state.cycles.head?.map (referencedStatement false)).getD default

end Handled

/-- The observer with the history of its run. -/
structure History where
  state : ConnectionState
  sinceFront : List Handled
  recorded : List (Nat × Statement)
  raised : List Event

namespace History

/-- The identity of the front cycle. -/
def frontId (s : ConnectionState) : Option Nat :=
  s.cycles.head?.map Cycle.id

/-- The last `CommandComplete` handled since the front cycle became front. -/
def lastComplete (handled : List Handled) : Option Handled :=
  (handled.filter fun h => h.frame.backendTag == .commandComplete).getLast?

/--
The last frame that took a statement off the front cycle: a `CommandComplete`
or a `PortalSuspended`.
-/
def lastReply (handled : List Handled) : Option Handled :=
  (handled.filter fun h =>
    h.frame.backendTag == .commandComplete ||
      h.frame.backendTag == .portalSuspended).getLast?

/-- The events and the state one call leads to. -/
def called
    (sha256 : Bytes → String)
    (s : ConnectionState) : Call → List Event × ConnectionState
  | .frontend f => s.frontend sha256 f
  | .forwarded => ([s.forwarded.1], s.forwarded.2)
  | .backend f => s.backend f

/-- No call breaks the numbering of the queue. -/
theorem numbered_called
    {s : ConnectionState}
    (numbered : Numbered s)
    (sha256 : Bytes → String)
    (call : Call) :
    Numbered (called sha256 s call).2 := by
  cases call with
  | frontend f =>
      rw [called, frontend_state]
      exact (numbered.accept sha256 f).recount _
  | forwarded =>
      exact numbered.recount _
  | backend f =>
      rw [called, backend_state]
      exact (numbered.advance f).recount _

/-- The server frame of a call. -/
def handledFrame (s : ConnectionState) : Call → List Handled
  | .backend f => [⟨s, f⟩]
  | _ => []

/-- The statement a call records, with the cycle that records it. -/
def recording
    (sha256 : Bytes → String)
    (s : ConnectionState) : Call → List (Nat × Statement)
  | .frontend f =>
      if f.frontendTag = .query ∨ f.frontendTag = .execute then
        ((s.accept sha256 f).cycles.getLast?.map fun c =>
          (c.id, s.resolve sha256 f)).toList
      else
        []
  | _ => []

/-- One call, with its history. -/
def step
    (sha256 : Bytes → String)
    (h : History)
    (call : Call) : History :=
  let after := called sha256 h.state call
  { state := after.2
    sinceFront :=
      if frontId after.2 = frontId h.state then
        h.sinceFront ++ handledFrame h.state call
      else
        []
    recorded := h.recorded ++ recording sha256 h.state call
    raised := h.raised ++ after.1 }

/-- A connection before its first call. -/
def start (id : Nat) (startup : StartupMetadata) : History where
  state := ConnectionState.new id startup
  sinceFront := []
  recorded := []
  raised := []

/-- A whole run of calls. -/
def run
    (sha256 : Bytes → String)
    (id : Nat)
    (startup : StartupMetadata)
    (calls : List Call) : History :=
  Machine.run (step sha256) (start id startup) calls

/-! ## The fields of the front cycle -/

/-- What the fields of the front cycle say about the frames it has seen. -/
structure FrontHistory
    (s : ConnectionState)
    (since : List Handled)
    (c : Cycle) : Prop where
  error :
    c.error = true ↔ ∃ x ∈ since, x.frame.backendTag = .errorResponse
  command :
    c.command = ((lastComplete since).bind fun x => text x.frame.body).getD ""
  last : ∀ x, lastReply since = some x → c.last = x.answered
  status : ∀ x ∈ since, x.state.txState = s.txState
  reliable :
    s.reliable = true → ∀ x ∈ since, x.state.reliable = true
  present : ∀ x ∈ since, x.state.cycles ≠ []

/-- The invariant of every run. -/
structure CycleHistory (h : History) : Prop where
  numbered : Numbered h.state
  untouched :
    ∀ c ∈ h.state.cycles.tail, c.error = false ∧ c.command = ""
  front :
    ∀ c,
      h.state.cycles.head? = some c →
      FrontHistory h.state h.sinceFront c
  statements :
    ∀ c ∈ h.state.cycles, ∀ statement ∈ c.statements,
      (c.id, statement) ∈ h.recorded
  last :
    ∀ c ∈ h.state.cycles,
      c.last = default ∨ (c.id, c.last) ∈ h.recorded

/-- Every frame since the front cycle became front found it in front. -/
def SameFront (h : History) : Prop :=
  ∀ x ∈ h.sinceFront, frontId x.state = frontId h.state

theorem lastComplete_concat
    (handled : List Handled)
    (x : Handled) :
    lastComplete (handled ++ [x]) =
      if x.frame.backendTag = .commandComplete then some x
      else lastComplete handled := by
  unfold lastComplete
  by_cases complete : x.frame.backendTag = .commandComplete <;>
    simp [List.filter_append, complete]

theorem lastReply_concat
    (handled : List Handled)
    (x : Handled) :
    lastReply (handled ++ [x]) =
      if x.frame.backendTag = .commandComplete ∨
          x.frame.backendTag = .portalSuspended then
        some x
      else
        lastReply handled := by
  unfold lastReply
  by_cases complete : x.frame.backendTag = .commandComplete
  · simp [List.filter_append, complete]
  · by_cases suspended : x.frame.backendTag = .portalSuspended <;>
      simp [List.filter_append, complete, suspended]

/-! ## The front cycle after a call -/

theorem step_frontend_cycles
    (sha256 : Bytes → String)
    (h : History)
    (f : Frame) :
    (h.step sha256 (.frontend f)).state.cycles =
      (h.state.accept sha256 f).cycles := by
  have state :
      (h.step sha256 (.frontend f)).state =
        (h.state.accept sha256 f).recount
          (h.state.frontend sha256 f).2.counters :=
    frontend_state sha256 h.state f
  rw [state, recount_cycles]

theorem step_backend_cycles
    (sha256 : Bytes → String)
    (h : History)
    (f : Frame) :
    (h.step sha256 (.backend f)).state.cycles = (h.state.advance f).cycles := by
  have state :
      (h.step sha256 (.backend f)).state =
        (h.state.advance f).recount (h.state.backend f).2.counters :=
    backend_state h.state f
  rw [state, recount_cycles]

/-- A client frame leaves the front cycle its frames, or starts a new front. -/
theorem front_frontend
    {sha256 : Bytes → String}
    {h : History}
    {f : Frame}
    {d : Cycle}
    (isFront : (h.step sha256 (.frontend f)).state.cycles.head? = some d) :
    (∃ c,
      h.state.cycles.head? = some c ∧ Grows c d ∧
        (h.step sha256 (.frontend f)).sinceFront = h.sinceFront) ∨
      ((∃ extended, Grows (h.state.fresh extended) d) ∧
        (h.step sha256 (.frontend f)).sinceFront = []) := by
  have cycles := step_frontend_cycles sha256 h f
  rw [cycles] at isFront
  rcases (accept_grows sha256 h.state f).front isFront with
      ⟨c, wasFront, grows⟩ | ⟨empty, extended, grows⟩
  · have sameFront :
        frontId (h.step sha256 (.frontend f)).state = frontId h.state := by
      simp [frontId, cycles, isFront, wasFront, grows.id]
    have kept :
        (h.step sha256 (.frontend f)).sinceFront = h.sinceFront ++ [] :=
      if_pos sameFront
    rw [List.append_nil] at kept
    exact Or.inl ⟨c, wasFront, grows, kept⟩
  · have newFront :
        frontId (h.step sha256 (.frontend f)).state ≠ frontId h.state := by
      simp [frontId, cycles, isFront, empty]
    exact Or.inr ⟨⟨extended, grows⟩, if_neg newFront⟩

/-- A server frame that ends no cycle is one more for the front cycle. -/
theorem front_open
    {sha256 : Bytes → String}
    {h : History}
    {f : Frame}
    (stays : readyStatus f = none)
    {d : Cycle}
    (isFront : (h.step sha256 (.backend f)).state.cycles.head? = some d) :
    ∃ c,
      h.state.cycles.head? = some c ∧ d = ConnectionState.answer f c ∧
        (h.step sha256 (.backend f)).sinceFront =
          h.sinceFront ++ [⟨h.state, f⟩] := by
  have cycles :
      (h.step sha256 (.backend f)).state.cycles =
        modifyFront (ConnectionState.answer f) h.state.cycles := by
    rw [step_backend_cycles, advance_cycles_of_open h.state stays]
  rw [cycles, head?_modifyFront] at isFront
  obtain ⟨c, wasFront, rfl⟩ := Option.map_eq_some_iff.mp isFront
  have sameFront :
      frontId (h.step sha256 (.backend f)).state = frontId h.state := by
    simp [frontId, cycles, wasFront, (answer_clientPart f c).id]
  exact ⟨c, wasFront, rfl, if_pos sameFront⟩

/-- A valid `ReadyForQuery` puts the next cycle in front. -/
theorem front_ready
    {sha256 : Bytes → String}
    {h : History}
    (numbered : Numbered h.state)
    {f : Frame}
    {status : TxState}
    (ready : readyStatus f = some status)
    {d : Cycle}
    (isFront : (h.step sha256 (.backend f)).state.cycles.head? = some d) :
    d ∈ h.state.cycles.tail ∧
      (h.step sha256 (.backend f)).sinceFront = [] := by
  have state :
      (h.step sha256 (.backend f)).state =
        (h.state.advance f).recount (h.state.backend f).2.counters :=
    backend_state h.state f
  have cycles :
      (h.step sha256 (.backend f)).state.cycles = h.state.cycles.tail := by
    rw [step_backend_cycles, advance_cycles_of_ready h.state ready]
  have nextCycle :
      (h.step sha256 (.backend f)).state.nextCycle = h.state.nextCycle := by
    rw [state, recount_nextCycle, advance_nextCycle]
  have later : Numbered (h.step sha256 (.backend f)).state :=
    numbered_called numbered sha256 (.backend f)
  have nextId := later.front_id isFront
  have inTail := isFront
  rw [cycles] at inTail
  -- The queue lost its front, so the new front has the next number.
  have newFront :
      frontId (h.step sha256 (.backend f)).state ≠ frontId h.state := by
    cases queue : h.state.cycles with
    | nil =>
        simp [queue] at inTail
    | cons first rest =>
        have firstId := numbered.front_id (c := first) (by rw [queue]; rfl)
        have bound := numbered.bound
        rw [cycles, nextCycle] at nextId
        rw [queue] at firstId nextId bound
        simp only [List.tail_cons, List.length_cons] at firstId nextId bound
        have was : frontId h.state = some first.id := by
          simp [frontId, queue]
        have now :
            frontId (h.step sha256 (.backend f)).state = some d.id := by
          simp [frontId, isFront]
        rw [was, now]
        intro same
        have sameId := Option.some.inj same
        omega
  exact ⟨List.mem_of_mem_head? inTail, if_neg newFront⟩

/-- A forwarded frame changes nothing for the front cycle. -/
theorem sinceFront_forwarded
    (sha256 : Bytes → String)
    (h : History) :
    (h.step sha256 .forwarded).sinceFront = h.sinceFront := by
  have kept :
      (h.step sha256 .forwarded).sinceFront = h.sinceFront ++ [] :=
    if_pos rfl
  rw [kept, List.append_nil]

/-! ## The start -/

theorem cycleHistory_start
    (id : Nat)
    (startup : StartupMetadata) :
    CycleHistory (start id startup) where
  numbered := numbered_new id startup
  untouched := by simp [start, ConnectionState.new]
  front := by simp [start, ConnectionState.new]
  statements := by simp [start, ConnectionState.new]
  last := by simp [start, ConnectionState.new]

/-- A cycle nobody has answered yet. -/
theorem FrontHistory.nil
    {s : ConnectionState}
    {c : Cycle}
    (error : c.error = false)
    (command : c.command = "") :
    FrontHistory s [] c where
  error := by simp [error]
  command := by simp [lastComplete, command]
  last := by simp [lastReply]
  status := by simp
  reliable := by simp
  present := by simp

/-- The front invariant survives client growth of the front cycle. -/
theorem FrontHistory.grows
    {s t : ConnectionState}
    {since : List Handled}
    {c d : Cycle}
    (history : FrontHistory s since c)
    (grown : Grows c d)
    (txState : t.txState = s.txState)
    (reliable : t.reliable = s.reliable) :
    FrontHistory t since d where
  error := by rw [grown.error]; exact history.error
  command := by rw [grown.command]; exact history.command
  last := by rw [grown.last]; exact history.last
  status := by rw [txState]; exact history.status
  reliable := by rw [reliable]; exact history.reliable
  present := history.present

/-- One more server frame on the same front cycle. -/
theorem FrontHistory.answer
    {s : ConnectionState}
    {since : List Handled}
    {c : Cycle}
    (history : FrontHistory s since c)
    (front : s.cycles.head? = some c)
    {f : Frame}
    (stays : readyStatus f = none) :
    FrontHistory (s.advance f) (since ++ [⟨s, f⟩])
      (ConnectionState.answer f c) where
  error := by
    rw [answer_error, Bool.or_eq_true, history.error]
    constructor
    · rintro (⟨x, member, failed⟩ | failed)
      · exact ⟨x, by simp [member], failed⟩
      · exact ⟨⟨s, f⟩, by simp, by simpa using failed⟩
    · rintro ⟨x, member, failed⟩
      rcases List.mem_append.mp member with earlier | now
      · exact Or.inl ⟨x, earlier, failed⟩
      · rw [List.mem_singleton] at now
        subst now
        exact Or.inr (by simpa using failed)
  command := by
    rw [answer_command, lastComplete_concat]
    by_cases complete : f.backendTag = .commandComplete
    · simp [complete]
    · simpa [complete] using history.command
  last := by
    intro x isLast
    rw [lastReply_concat] at isLast
    rw [answer_last]
    by_cases moves :
        f.backendTag = .commandComplete ∨ f.backendTag = .portalSuspended
    · rw [if_pos moves] at isLast ⊢
      have isThis : (⟨s, f⟩ : Handled) = x := by
        simpa using isLast
      subst isThis
      simp [Handled.answered, front]
    · rw [if_neg moves] at isLast ⊢
      exact history.last x isLast
  status := by
    intro x member
    rw [advance_txState, stays]
    rcases List.mem_append.mp member with earlier | now
    · exact history.status x earlier
    · rw [List.mem_singleton] at now
      subst now
      rfl
  reliable := by
    intro after x member
    have before := reliable_of_advance stays after
    rcases List.mem_append.mp member with earlier | now
    · exact history.reliable before x earlier
    · rw [List.mem_singleton] at now
      subst now
      exact before
  present := by
    intro x member
    rcases List.mem_append.mp member with earlier | now
    · exact history.present x earlier
    · rw [List.mem_singleton] at now
      subst now
      intro empty
      have none : s.cycles = [] := empty
      rw [none] at front
      cases front

/-! ## One call keeps the invariant -/

/-- The statements waiting in the queue are the recorded ones. -/
theorem recorded_of_accept
    {sha256 : Bytes → String}
    {h : History}
    (history : CycleHistory h)
    (f : Frame)
    {c : Cycle}
    (member : c ∈ (h.state.accept sha256 f).cycles)
    {statement : Statement}
    (waits : statement ∈ c.statements) :
    (c.id, statement) ∈
      h.recorded ++ recording sha256 h.state (.frontend f) := by
  have known :
      ∀ entry ∈ h.state.cycles.map waiting, ∀ st ∈ entry.2,
        (entry.1, st) ∈ h.recorded := by
    intro entry entryMember st stMember
    obtain ⟨d, inQueue, rfl⟩ := List.mem_map.mp entryMember
    exact history.statements d inQueue st stMember
  have entryMember := List.mem_map_of_mem (f := waiting) member
  rw [List.mem_append]
  rcases accept_waiting sha256 h.state f with
      ⟨-, same⟩ | ⟨earlier, id, statements, after, before⟩
  · rw [same] at entryMember
    exact Or.inl (known (waiting c) entryMember statement waits)
  · rw [after] at entryMember
    rcases List.mem_append.mp entryMember with inEarlier | isBack
    · refine Or.inl (known (waiting c) ?_ statement waits)
      rcases before with shape | ⟨shape, -, -⟩
      · rw [shape]
        exact List.mem_append_left _ inEarlier
      · rw [shape]
        exact inEarlier
    · rw [List.mem_singleton] at isBack
      have sameId : c.id = id := congrArg Prod.fst isBack
      have sameStatements :
          c.statements = statements ++ h.state.noted sha256 f :=
        congrArg Prod.snd isBack
      rw [sameStatements] at waits
      rw [sameId]
      rcases List.mem_append.mp waits with earlierOne | newOne
      · left
        rcases before with shape | ⟨-, -, none⟩
        · exact known (id, statements) (by simp [shape]) statement earlierOne
        · simp [none] at earlierOne
      · right
        have back :
            (h.state.accept sha256 f).cycles.getLast?.map waiting =
              some (id, statements ++ h.state.noted sha256 f) := by
          rw [← List.getLast?_map, after]
          simp
        obtain ⟨d, isLast, view⟩ := Option.map_eq_some_iff.mp back
        have lastId : d.id = id := congrArg Prod.fst view
        unfold noted at newOne
        split at newOne
        · next records =>
            rw [List.mem_singleton] at newOne
            simp [recording, records, isLast, lastId, newOne]
        · simp at newOne

theorem CycleHistory.frontend
    {sha256 : Bytes → String}
    {h : History}
    (history : CycleHistory h)
    (f : Frame) :
    CycleHistory (h.step sha256 (.frontend f)) := by
  have state :
      (h.step sha256 (.frontend f)).state =
        (h.state.accept sha256 f).recount
          (h.state.frontend sha256 f).2.counters :=
    frontend_state sha256 h.state f
  have cycles := step_frontend_cycles sha256 h f
  have grown := accept_grows sha256 h.state f
  obtain ⟨pushed, pushedShape, queue⟩ := grown.exists_pushed
  have pushedFresh :
      ∀ c ∈ pushed, c.last = default := by
    rintro c member
    rcases pushedShape with rfl | ⟨extended, rfl⟩
    · simp at member
    · rw [List.mem_singleton] at member
      subst member
      rfl
  refine ⟨numbered_called history.numbered sha256 (.frontend f), ?_, ?_, ?_, ?_⟩
  · intro d member
    rw [cycles] at member
    rcases grown.behind member with ⟨c, source, grows⟩ | ⟨extended, grows⟩
    · rw [grows.error, grows.command]
      exact history.untouched c source
    · rw [grows.error, grows.command]
      exact ⟨rfl, rfl⟩
  · intro d isFront
    rcases front_frontend isFront with
        ⟨c, wasFront, grows, sameFrames⟩ | ⟨⟨extended, grows⟩, noFrames⟩
    · rw [sameFrames]
      refine (history.front c wasFront).grows grows ?_ ?_
      · rw [state, recount_txState]
        exact grown.txState
      · rw [state, recount_reliable]
        exact grown.reliable
    · rw [noFrames]
      exact FrontHistory.nil grows.error grows.command
  · intro d member statement waits
    rw [cycles] at member
    exact recorded_of_accept history f member waits
  · intro d member
    rw [cycles] at member
    obtain ⟨c, source, grows⟩ := exists_of_forall₂ queue member
    rw [grows.last, grows.id]
    rcases List.mem_append.mp source with inQueue | inPushed
    · rcases history.last c inQueue with unset | noted
      · exact Or.inl unset
      · exact Or.inr (List.mem_append_left _ noted)
    · exact Or.inl (pushedFresh c inPushed)

/-- What a server frame leaves of a waiting statement was recorded before. -/
theorem CycleHistory.answered_recorded
    {h : History}
    (history : CycleHistory h)
    {c : Cycle}
    (member : c ∈ h.state.cycles) :
    referencedStatement false c = default ∨
      (c.id, referencedStatement false c) ∈ h.recorded := by
  simp only [referencedStatement, Bool.false_eq_true, ↓reduceIte]
  cases statements : c.statements with
  | nil =>
      simpa using history.last c member
  | cons first rest =>
      right
      exact history.statements c member first (by simp [statements])

theorem CycleHistory.backend_ready
    {sha256 : Bytes → String}
    {h : History}
    (history : CycleHistory h)
    {f : Frame}
    {status : TxState}
    (ready : readyStatus f = some status) :
    CycleHistory (h.step sha256 (.backend f)) := by
  have cycles :
      (h.step sha256 (.backend f)).state.cycles = h.state.cycles.tail := by
    rw [step_backend_cycles, advance_cycles_of_ready h.state ready]
  have recorded :
      (h.step sha256 (.backend f)).recorded = h.recorded :=
    List.append_nil _
  have inQueue {c : Cycle} (member : c ∈ h.state.cycles.tail) :
      c ∈ h.state.cycles :=
    List.mem_of_mem_tail member
  refine ⟨numbered_called history.numbered sha256 (.backend f), ?_, ?_, ?_, ?_⟩
  · intro c member
    rw [cycles] at member
    exact history.untouched c (List.mem_of_mem_tail member)
  · intro c isFront
    obtain ⟨member, noFrames⟩ := front_ready history.numbered ready isFront
    rw [noFrames]
    exact FrontHistory.nil (history.untouched c member).1
      (history.untouched c member).2
  · intro c member statement waits
    rw [cycles] at member
    rw [recorded]
    exact history.statements c (inQueue member) statement waits
  · intro c member
    rw [cycles] at member
    rw [recorded]
    exact history.last c (inQueue member)

theorem CycleHistory.backend_open
    {sha256 : Bytes → String}
    {h : History}
    (history : CycleHistory h)
    {f : Frame}
    (stays : readyStatus f = none) :
    CycleHistory (h.step sha256 (.backend f)) := by
  have state :
      (h.step sha256 (.backend f)).state =
        (h.state.advance f).recount (h.state.backend f).2.counters :=
    backend_state h.state f
  have cycles :
      (h.step sha256 (.backend f)).state.cycles =
        modifyFront (ConnectionState.answer f) h.state.cycles := by
    rw [step_backend_cycles, advance_cycles_of_open h.state stays]
  have recorded :
      (h.step sha256 (.backend f)).recorded = h.recorded :=
    List.append_nil _
  refine ⟨numbered_called history.numbered sha256 (.backend f), ?_, ?_, ?_, ?_⟩
  · intro c member
    rw [cycles, tail_modifyFront] at member
    exact history.untouched c member
  · intro d isFront
    obtain ⟨c, wasFront, rfl, oneMore⟩ := front_open stays isFront
    rw [oneMore, state]
    exact ((history.front c wasFront).answer wasFront stays).grows
      (Grows.refl _) rfl rfl
  · intro d member statement waits
    rw [cycles] at member
    rw [recorded]
    cases queue : h.state.cycles with
    | nil =>
        simp [queue] at member
    | cons first rest =>
        rw [queue, modifyFront_cons] at member
        rcases List.mem_cons.mp member with isFirst | inRest
        · subst isFirst
          rw [(answer_clientPart f first).id]
          refine history.statements first (by simp [queue]) statement ?_
          rw [answer_statements] at waits
          split at waits
          · exact List.mem_of_mem_tail waits
          · exact waits
        · exact history.statements d (by simp [queue, inRest])
            statement waits
  · intro d member
    rw [cycles] at member
    rw [recorded]
    cases queue : h.state.cycles with
    | nil =>
        simp [queue] at member
    | cons first rest =>
        rw [queue, modifyFront_cons] at member
        rcases List.mem_cons.mp member with isFirst | inRest
        · subst isFirst
          rw [(answer_clientPart f first).id, answer_last]
          split
          · exact history.answered_recorded (by simp [queue])
          · exact history.last first (by simp [queue])
        · exact history.last d (by simp [queue, inRest])

theorem CycleHistory.forwarded
    {sha256 : Bytes → String}
    {h : History}
    (history : CycleHistory h) :
    CycleHistory (h.step sha256 .forwarded) := by
  have recorded : (h.step sha256 .forwarded).recorded = h.recorded :=
    List.append_nil _
  refine ⟨numbered_called history.numbered sha256 .forwarded,
    history.untouched, ?_, ?_, ?_⟩
  · intro c isFront
    rw [sinceFront_forwarded]
    exact (history.front c isFront).grows (Grows.refl c) rfl rfl
  · rw [recorded]
    exact history.statements
  · rw [recorded]
    exact history.last

/-- Every call keeps the invariant. -/
theorem CycleHistory.step
    {sha256 : Bytes → String}
    {h : History}
    (history : CycleHistory h)
    (call : Call) :
    CycleHistory (h.step sha256 call) := by
  cases call with
  | frontend f =>
      exact history.frontend f
  | forwarded =>
      exact history.forwarded
  | backend f =>
      cases ready : readyStatus f with
      | none =>
          exact history.backend_open ready
      | some status =>
          exact history.backend_ready ready

/-- Whatever a call does, a new front cycle starts a new list. -/
theorem SameFront.step
    {h : History}
    (same : SameFront h)
    (sha256 : Bytes → String)
    (call : Call) :
    SameFront (h.step sha256 call) := by
  intro x member
  by_cases stays : frontId (h.step sha256 call).state = frontId h.state
  · have grown :
        (h.step sha256 call).sinceFront =
          h.sinceFront ++ handledFrame h.state call :=
      if_pos stays
    rw [grown] at member
    rw [stays]
    rcases List.mem_append.mp member with earlier | now
    · exact same x earlier
    · cases call with
      | backend f =>
          rw [List.mem_singleton.mp now]
      | frontend f =>
          simp [handledFrame] at now
      | forwarded =>
          simp [handledFrame] at now
  · have none : (h.step sha256 call).sinceFront = [] := if_neg stays
    rw [none] at member
    simp at member

theorem sameFront_run
    (sha256 : Bytes → String)
    (id : Nat)
    (startup : StartupMetadata)
    (calls : List Call) :
    SameFront (run sha256 id startup calls) :=
  Machine.run_invariant (fun _ call same => same.step sha256 call)
    (by simp [SameFront, start]) calls

/-- The invariant holds after every run of calls. -/
theorem cycleHistory_run
    (sha256 : Bytes → String)
    (id : Nat)
    (startup : StartupMetadata)
    (calls : List Call) :
    CycleHistory (run sha256 id startup calls) :=
  Machine.run_invariant (fun _ call history => history.step call)
    (cycleHistory_start id startup) calls

end History

end Pgfault
