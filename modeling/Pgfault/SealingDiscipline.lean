import Pgfault.PipelineAlignment

namespace Pgfault

open Queue ConnectionState

/-!
# The sealing discipline

`cycle` takes the back of the queue for the group the client is sending: an
unsealed back is open, a sealed one is complete.  So all cycles but the last
should be sealed, and the sealed ones should be the answers the server owes.

A `Query` pushes a cycle without a look at the back.  Sent into an open group it
leaves an unsealed cycle in the middle of the queue, and one that no
`ReadyForQuery` is for.
-/

namespace ConnectionState

/-- Which cycles of the queue are sealed. -/
def marks (s : ConnectionState) : List Bool :=
  s.cycles.map Cycle.sealed

/-- A use of the queue, on the marks alone. -/
def Touch.mark (how : Touch) (marks : List Bool) : List Bool :=
  modifyBack (· || how.seals)
    (if !how.extended || marks.getLast?.getD true then
      marks ++ [!how.extended]
    else
      marks)

/-- What a client frame does to the marks. -/
theorem marks_accept
    (sha256 : Bytes → String)
    (s : ConnectionState)
    (f : Frame) :
    (s.accept sha256 f).marks =
      (touch f).elim s.marks fun how => how.mark s.marks := by
  have kept :
      (s.accept sha256 f).marks = (s.receive sha256 f).1.marks := by
    have keeps (c : Cycle) : (markEpoch c).sealed = c.sealed := rfl
    unfold marks accept
    rcases allocateEpoch_cycles (s.receive sha256 f).1 f with same | marked
    · rw [same]
    · rw [marked, map_modifyFront keeps]
  rw [kept]
  rcases (receive_receives sha256 s f).queue with
      ⟨untouched, -, cycles, -⟩ | ⟨how, update, touches, updates, cycles, -⟩
  · rw [untouched, marks, cycles]
    rfl
  · have opened :
        (s.openCycle how.extended).cycles.map Cycle.sealed =
          if !how.extended || s.marks.getLast?.getD true then
            s.marks ++ [!how.extended]
          else
            s.marks := by
      have back :
          s.cycles.getLast?.all Cycle.sealed = s.marks.getLast?.getD true := by
        unfold marks
        rw [List.getLast?_map]
        cases s.cycles.getLast? <;> rfl
      unfold openCycle startsCycle
      rw [back]
      split
      · rw [List.map_append]
        rfl
      · rfl
    have sealing (queue : List Cycle) :
        (modifyBack update queue).map Cycle.sealed =
          modifyBack (· || how.seals) (queue.map Cycle.sealed) :=
      map_modifyBack_of updates.sealed queue
    rw [touches, marks, cycles, sealing, opened]
    rfl

/-- What a server frame does to the marks. -/
theorem marks_advance
    (s : ConnectionState)
    (f : Frame) :
    (s.advance f).marks =
      if (readyStatus f).isSome then s.marks.tail else s.marks := by
  unfold marks
  cases ready : readyStatus f with
  | none =>
      rw [advance_cycles_of_open s ready,
        map_modifyFront fun c => (answer_clientPart f c).sealed]
      rfl
  | some status =>
      rw [advance_cycles_of_ready s ready, List.map_tail]
      rfl

end ConnectionState

/-- What the server owes, and whether the client is inside a group. -/
structure Owing where
  /-- `Query` and `Sync` frames not answered by a `ReadyForQuery`. -/
  owed : Nat := 0
  /-- Whether a frame of an extended group has been sent without its `Sync`. -/
  opened : Bool := false
  deriving Repr, DecidableEq

namespace Owing

/--
The calls of such a session: the client sends `Query` and extended frames in any
order, and the server sends a valid `ReadyForQuery` only where it owes one.
-/
def permits (o : Owing) : Call → Prop
  | .forwarded => True
  | .frontend f =>
      f.frontendTag = .query ∨ Pipeline.isExtended f.frontendTag = true ∨
        f.frontendTag = .sync
  | .backend f =>
      f.backendTag = .readyForQuery →
        0 < o.owed ∧ (readyStatus f).isSome = true

/-- Count one call. -/
def step (o : Owing) : Call → Owing
  | .forwarded => o
  | .frontend f =>
      if f.frontendTag = .query ∨ f.frontendTag = .sync then
        { owed := o.owed + 1, opened := false }
      else
        { o with opened := o.opened || (touch f).isSome }
  | .backend f =>
      if f.backendTag = .readyForQuery then
        { o with owed := o.owed - 1 }
      else
        o

/-- The counts after some calls. -/
def run (o : Owing) (calls : List Call) : Owing :=
  Machine.run step o calls

/-- A `Query` is not sent into an open group. -/
def queriesAlone (o : Owing) : Call → Prop
  | .frontend f => f.frontendTag = .query → o.opened = false
  | _ => True

/-- All cycles but the last are sealed, and the sealed ones are owed. -/
structure Disciplined (s : ConnectionState) (o : Owing) : Prop where
  sealed : ∀ c ∈ s.cycles.dropLast, c.sealed = true
  owed : s.cycles.countP Cycle.sealed = o.owed

/-- The marks of a queue that keeps the discipline. -/
def marks (o : Owing) : List Bool :=
  List.replicate o.owed true ++ if o.opened then [false] else []

/-- The back of such a queue is sealed exactly between groups. -/
theorem getLast_marks (o : Owing) :
    o.marks.getLast?.getD true = !o.opened := by
  unfold marks
  cases o.opened with
  | true =>
      simp
  | false =>
      cases o.owed <;> simp [List.getLast?_replicate]

theorem disciplined_of_marks
    {s : ConnectionState}
    {o : Owing}
    (shape : s.marks = o.marks) :
    Disciplined s o where
  sealed := by
    intro c member
    have inMarks : c.sealed ∈ s.marks.dropLast := by
      unfold ConnectionState.marks
      rw [← List.map_dropLast]
      exact List.mem_map_of_mem member
    rw [shape, marks] at inMarks
    cases opened : o.opened <;>
      simp [opened, List.dropLast_replicate] at inMarks
    · exact inMarks.2
    · exact inMarks.2
  owed := by
    have counted :
        s.cycles.countP Cycle.sealed = s.marks.countP id := by
      unfold ConnectionState.marks
      rw [List.countP_map]
      rfl
    rw [counted, shape, marks]
    cases o.opened <;> simp [List.countP_replicate]

/-- The greeting owes nothing. -/
theorem marks_greeted
    (sha256 : Bytes → String)
    (id : Nat)
    (startup : StartupMetadata)
    (greeting : List Frame) :
    (greeted sha256 id startup greeting).marks = marks {} := by
  unfold ConnectionState.marks
  rw [(greeted_empty sha256 id startup greeting).1]
  rfl

/-- A client frame that does not break into an open group. -/
theorem marks_frontend
    {s : ConnectionState}
    {o : Owing}
    (shape : s.marks = o.marks)
    (sha256 : Bytes → String)
    {f : Frame}
    (permitted : o.permits (.frontend f))
    (alone : o.queriesAlone (.frontend f)) :
    (s.accept sha256 f).marks = (o.step (.frontend f)).marks := by
  rw [marks_accept, shape]
  rcases permitted with query | extended | sync
  · have touches : touch f = some ⟨false, false⟩ := by simp [touch, query]
    have closed := alone query
    simp [touches, Touch.mark, step, query, marks, closed,
      List.replicate_succ']
  · have others : f.frontendTag ≠ .query ∧ f.frontendTag ≠ .sync := by
      constructor <;> intro tag <;> simp [Pipeline.isExtended, tag] at extended
    rcases Pipeline.touch_of_isExtended extended with untouched | touches
    · simp [untouched, step, others, marks]
    · simp only [touches, Option.elim_some, Touch.mark, getLast_marks]
      cases opened : o.opened <;>
        simp [step, others, touches, marks, opened]
  · have touches : touch f = some ⟨true, true⟩ := by simp [touch, sync]
    simp only [touches, Option.elim_some, Touch.mark, getLast_marks]
    cases opened : o.opened <;>
      simp [step, sync, marks, opened, List.replicate_succ']

/-- A server frame of such a session. -/
theorem marks_backend
    {s : ConnectionState}
    {o : Owing}
    (shape : s.marks = o.marks)
    {f : Frame}
    (permitted : o.permits (.backend f)) :
    (s.advance f).marks = (o.step (.backend f)).marks := by
  rw [marks_advance, shape]
  by_cases ready : f.backendTag = .readyForQuery
  · obtain ⟨owes, valid⟩ := permitted ready
    obtain ⟨owed, isOwed⟩ := Nat.exists_eq_succ_of_ne_zero (by omega : o.owed ≠ 0)
    simp [valid, step, ready, marks, isOwed, List.replicate_succ]
  · simp [readyStatus, step, ready]

/-- One call of such a session, with every `Query` between groups. -/
theorem marks_call
    {s : ConnectionState}
    {o : Owing}
    (shape : s.marks = o.marks)
    (sha256 : Bytes → String)
    {call : Call}
    (permitted : o.permits call)
    (alone : o.queriesAlone call) :
    (History.called sha256 s call).2.marks = (o.step call).marks := by
  obtain ⟨counters, state⟩ := called_state sha256 s call
  have kept :
      (History.called sha256 s call).2.marks =
        (s.moves sha256 call).marks := by
    rw [state]
    rfl
  rw [kept]
  cases call with
  | frontend f =>
      exact marks_frontend shape sha256 permitted alone
  | forwarded =>
      exact shape
  | backend f =>
      exact marks_backend shape permitted

/-- A `Query` in an open group breaks the discipline at once. -/
theorem not_disciplined_of_query
    {s : ConnectionState}
    {o : Owing}
    (shape : s.marks = o.marks)
    (sha256 : Bytes → String)
    {f : Frame}
    (query : f.frontendTag = .query)
    (opened : o.opened = true)
    (after : Owing) :
    ¬ Disciplined (History.called sha256 s (.frontend f)).2 after := by
  intro disciplined
  have touches : touch f = some ⟨false, false⟩ := by simp [touch, query]
  have marked :
      (History.called sha256 s (.frontend f)).2.marks =
        List.replicate o.owed true ++ [false] ++ [true] := by
    obtain ⟨counters, state⟩ := called_state sha256 s (.frontend f)
    have kept :
        (History.called sha256 s (.frontend f)).2.marks =
          (s.accept sha256 f).marks := by
      rw [state]
      rfl
    rw [kept, marks_accept, touches, shape]
    simp only [Option.elim_some, Touch.mark, marks, opened, if_true,
      Bool.not_false, Bool.true_or]
    rw [modifyBack_concat]
    rfl
  -- The cycle of the open group is not the last one any more.
  have unsealed :
      false ∈ (History.called sha256 s (.frontend f)).2.marks.dropLast := by
    rw [marked, List.dropLast_concat]
    simp
  unfold ConnectionState.marks at unsealed
  rw [← List.map_dropLast] at unsealed
  obtain ⟨c, member, isFalse⟩ := List.mem_map.mp unsealed
  rw [disciplined.sealed c member] at isFalse
  cases isFalse

/-- A call that is refused is a `Query` in an open group. -/
theorem query_of_not_alone
    {o : Owing}
    {call : Call}
    (breaks : ¬ o.queriesAlone call) :
    ∃ f, call = .frontend f ∧ f.frontendTag = .query ∧ o.opened = true := by
  cases call with
  | frontend f =>
      obtain ⟨query, opened⟩ := Classical.not_imp.mp breaks
      exact ⟨f, rfl, query, by simpa using opened⟩
  | forwarded =>
      exact absurd trivial breaks
  | backend f =>
      exact absurd trivial breaks

/-- The discipline holds after every prefix exactly if no `Query` breaks in. -/
theorem disciplined_iff
    {s : ConnectionState}
    {o : Owing}
    (shape : s.marks = o.marks)
    (sha256 : Bytes → String)
    {calls : List Call}
    (permitted : Machine.Permitted permits step o calls) :
    (∀ before after,
      calls = before ++ after →
      Disciplined (s.observe sha256 before) (o.run before)) ↔
      Machine.Permitted queriesAlone step o calls := by
  induction calls generalizing s o with
  | nil =>
      refine iff_of_true ?_ trivial
      intro before after split
      obtain ⟨rfl, rfl⟩ := List.append_eq_nil_iff.mp split.symm
      exact disciplined_of_marks shape
  | cons call later inductionHypothesis =>
      by_cases alone : o.queriesAlone call
      · have next :=
          inductionHypothesis (marks_call shape sha256 permitted.1 alone)
            permitted.2
        constructor
        · intro everywhere
          refine ⟨alone, next.mp ?_⟩
          intro before after split
          exact everywhere (call :: before) after (by rw [split]; rfl)
        · rintro ⟨-, laterAlone⟩ before after split
          cases before with
          | nil =>
              exact disciplined_of_marks shape
          | cons first rest =>
              rw [List.cons_append, List.cons.injEq] at split
              obtain ⟨rfl, split⟩ := split
              exact next.mpr laterAlone rest after split
      · obtain ⟨f, rfl, query, opened⟩ := query_of_not_alone alone
        refine iff_of_false ?_ (fun allAlone => alone allAlone.1)
        intro everywhere
        exact not_disciplined_of_query shape sha256 query opened _
          (everywhere [.frontend f] later rfl)

/--
The sealing discipline.  In every session of `Query` and extended frames with a
server that answers each `Query` and each `Sync`, all cycles but the last are
sealed and the sealed ones are the answers owed, in every state reached, exactly
if no `Query` is sent into an open extended group.
-/
theorem sealing_discipline
    (sha256 : Bytes → String)
    (id : Nat)
    (startup : StartupMetadata)
    (greeting : List Frame)
    (calls : List Call)
    (permitted : Machine.Permitted permits step {} calls) :
    (∀ before after,
      calls = before ++ after →
      Disciplined
        ((greeted sha256 id startup greeting).observe sha256 before)
        (run {} before)) ↔
      Machine.Permitted queriesAlone step {} calls :=
  disciplined_iff (marks_greeted sha256 id startup greeting) sha256 permitted

instance decidablePermits (o : Owing) :
    (call : Call) → Decidable (o.permits call)
  | .forwarded => inferInstanceAs (Decidable True)
  | .frontend f =>
      inferInstanceAs (Decidable (f.frontendTag = .query ∨
        Pipeline.isExtended f.frontendTag = true ∨ f.frontendTag = .sync))
  | .backend f =>
      inferInstanceAs (Decidable (f.backendTag = .readyForQuery →
        0 < o.owed ∧ (readyStatus f).isSome = true))

instance decidableQueriesAlone (o : Owing) :
    (call : Call) → Decidable (o.queriesAlone call)
  | .forwarded => inferInstanceAs (Decidable True)
  | .frontend f =>
      inferInstanceAs
        (Decidable (f.frontendTag = .query → o.opened = false))
  | .backend _ => inferInstanceAs (Decidable True)

theorem sealing_discipline_pipelinedQueries :
    Disciplined
      ((greeted sampleSha256 1 default [message 'Z' (ascii "I")]).observe
        sampleSha256 (Pipeline.pipelinedQueries.take 4))
      (run {} (Pipeline.pipelinedQueries.take 4)) := by
  have disciplined :=
    (sealing_discipline sampleSha256 1 default [message 'Z' (ascii "I")]
      Pipeline.pipelinedQueries (by decide +kernel)).mpr (by decide +kernel)
  exact disciplined _ _ (List.take_append_drop 4 _).symm

/-- An extended statement, and a `Query` before its `Sync`. -/
def queryBeforeSync : List Call :=
  ((unnamedFrames "SELECT 1").map Call.frontend) ++
    [.frontend (message 'Q' (ascii "SELECT 2" ++ [0])),
      .backend (message '1' []),
      .backend (message '2' []),
      .backend rowOfOne,
      .backend (message 'C' (ascii "SELECT 1" ++ [0])),
      .backend rowOfOne,
      .backend (message 'C' (ascii "SELECT 1" ++ [0])),
      .backend (message 'Z' (ascii "I"))]

/--
Behind the `Query` an unsealed cycle stands in the middle of the queue; when the
server has answered and owes nothing, a sealed cycle is left.
-/
theorem sealing_broken_queryBeforeSync :
    Machine.Permitted permits step {} queryBeforeSync ∧
      ¬ Disciplined
          ((greeted sampleSha256 1 default [message 'Z' (ascii "I")]).observe
            sampleSha256 (queryBeforeSync.take 4))
          (run {} (queryBeforeSync.take 4)) ∧
      ¬ Disciplined
          ((greeted sampleSha256 1 default [message 'Z' (ascii "I")]).observe
            sampleSha256 queryBeforeSync)
          (run {} queryBeforeSync) := by
  refine ⟨by decide +kernel, ?_, ?_⟩
  · intro disciplined
    exact absurd disciplined.sealed (by decide +kernel)
  · intro disciplined
    exact absurd disciplined.owed (by decide +kernel)

end Owing

end Pgfault
