import Pgfault.CompletionPrediction
import Pgfault.SessionAlignment

namespace Pgfault

open Queue ConnectionState

/-!
# Coordinates at both ends of a statement

An `Execute` announces its cycle, its position in the group, its class and its
fingerprint.  The replies report the same four.  The client side counts
`Execute` frames, the server side only `CommandComplete` frames, so the two
agree where every earlier statement of the group ended in `CommandComplete`.
-/

namespace Session

/-- The turns of a session whose client frames are all forwarded. -/
def Forwards (σ : Session) : Turn → Prop
  | .dropped _ => False
  | turn => σ.permits turn

instance decidableForwards (σ : Session) :
    (turn : Turn) → Decidable (σ.Forwards turn)
  | .dropped _ => inferInstanceAs (Decidable False)
  | .client f => inferInstanceAs (Decidable (σ.permits (.client f)))
  | .forwarded => inferInstanceAs (Decidable (σ.permits .forwarded))
  | .server f => inferInstanceAs (Decidable (σ.permits (.server f)))

/-- The events that report on a statement. -/
def statementEvents : List String :=
  ["result.row", "backend.command_complete", "statement.execution_completed",
    "result.completed"]

/--
The reliable events that report on an `Execute` carry the coordinates it
announced.
-/
def SameCoordinates (σ : Session) : Turn → Prop
  | .server f =>
      ∀ answered ∈ σ.answered,
        answered.2.frame.frontendTag = .execute →
        ∀ e ∈ (σ.state.backend f).1,
          e.event ∈ statementEvents →
          e.semanticReliable = true →
          ∀ a ∈ answered.2.note.raised,
            a.event = "frontend.execute" →
            e.coordinates = a.coordinates
  | _ => True

/-- The replies whose events report on a statement. -/
def reportsStatement (tag : BackendTag) : Bool :=
  tag = .dataRow ∨ tag = .commandComplete

/--
Whenever a reply reports on an `Execute` reliably, every earlier statement of
the group has ended in `CommandComplete`.
-/
def AllCompleted (σ : Session) : Turn → Prop
  | .server f =>
      reportsStatement f.backendTag = true →
      σ.state.reliable = true →
      ∀ answered ∈ σ.answered,
        answered.2.frame.frontendTag = .execute →
        ∀ outcome ∈ answered.1.outcomes, outcome = .commandComplete
  | _ => True

/-- A session that forwards everything. -/
structure Unsuppressed (σ : Session) : Prop where
  faithful : Faithful σ
  suppressed : σ.suppressed = false

theorem Unsuppressed.step
    {sha256 : Bytes → String}
    {σ : Session}
    {turn : Turn}
    (unsuppressed : Unsuppressed σ)
    (forwards : σ.Forwards turn) :
    Unsuppressed (σ.step sha256 turn) := by
  cases turn with
  | dropped f =>
      exact forwards.elim
  | client f =>
      exact ⟨unsuppressed.faithful.step forwards trivial,
        unsuppressed.suppressed⟩
  | forwarded =>
      exact ⟨unsuppressed.faithful.step forwards trivial,
        unsuppressed.suppressed⟩
  | server f =>
      exact ⟨unsuppressed.faithful.step forwards trivial,
        unsuppressed.suppressed⟩

theorem answered_cases
    {σ : Session}
    {g : Group Announcement}
    {r : Request Announcement}
    (answered : σ.answered = some (g, r)) :
    σ.server.groups.head? = some g ∧ g.due.head? = some r := by
  unfold Session.answered at answered
  cases front : σ.server.groups.head? with
  | none =>
      simp [front] at answered
  | some x =>
      cases due : x.due.head? with
      | none =>
          simp [front, due] at answered
      | some y =>
          simp only [front, due, Option.bind_some, Option.map_some,
            Option.some.injEq, Prod.mk.injEq] at answered
          obtain ⟨rfl, rfl⟩ := answered
          exact ⟨rfl, due⟩

theorem expects_of_front
    {server : Server Announcement}
    {f : Frame}
    {g : Group Announcement}
    (expected : server.expects f = true)
    (notAsync : Server.isAsync f.backendTag = false)
    (front : server.groups.head? = some g) :
    g.expects f = true := by
  simp only [Server.expects, notAsync, front, Option.any_some,
    Bool.false_or, Bool.and_eq_true] at expected
  exact expected.1

/-- What is known when a reply answers an `Execute`. -/
structure AnswersExecute
    (σ : Session)
    (g : Group Announcement)
    (r : Request Announcement)
    (c : Cycle) : Prop where
  front : σ.state.cycles.head? = some c
  mirrors : Mirrors σ.spoiled σ.suppressed c g
  part : ExtendedPart σ.spoiled σ.suppressed c g
  first : (executes g).head? = some r

/-- A reply to an `Execute` finds its group mirrored by the front cycle. -/
theorem Faithful.answersExecute
    {σ : Session}
    {f : Frame}
    {g : Group Announcement}
    {r : Request Announcement}
    (faithful : Faithful σ)
    (expected : σ.server.expects f = true)
    (notAsync : Server.isAsync f.backendTag = false)
    (notReady : f.backendTag ≠ .readyForQuery)
    (answered : σ.answered = some (g, r))
    (execute : r.frame.frontendTag = .execute) :
    ∃ c, AnswersExecute σ g r c := by
  obtain ⟨front, due⟩ := answered_cases answered
  have expects := expects_of_front expected notAsync front
  obtain ⟨x, rest, shape, -, sublist, same⟩ := due_cases expects notReady
  have isFirst : x = r := by simpa [shape] using due
  subst isFirst
  have member : x ∈ g.waiting := sublist.subset List.mem_cons_self
  have first : (executes g).head? = some x := by
    rw [same]
    simp [execute]
  rcases faithful.front_cases front with
      ⟨blank, -, -⟩ | ⟨c, cycles, -, -, queue, -, mirrors, -, -⟩
  · exact absurd execute (tag_of_untouched (blank.untouched x member)).1
  · rcases mirrors.part with simple | part
    · obtain ⟨-, -, y, -, alone, query, -, -⟩ := simple
      rw [alone, List.mem_singleton] at member
      rw [member, query] at execute
      cases execute
    · exact ⟨c, by rw [queue]; rfl, mirrors, part, first⟩

/-- A request that was matched announced the statement in front of its cycle. -/
theorem AnswersExecute.announces
    {σ : Session}
    {g : Group Announcement}
    {r : Request Announcement}
    {c : Cycle}
    (answers : AnswersExecute σ g r c)
    (clean : r.note.clean = true)
    (noEmpty : .emptyQueryResponse ∉ g.outcomes) :
    Announces c.id r (referencedStatement false c) := by
  obtain ⟨matched, unclean, statements, rest, split, marked, shape, announces,
    -⟩ := answers.part.attributed noEmpty
  have first := answers.first
  rw [split] at first
  cases announces with
  | nil =>
      have member : r ∈ unclean := List.mem_of_mem_head? first
      rw [marked r member] at clean
      cases clean
  | @cons x statement _ _ head _ =>
      have isFirst : x = r := by simpa using first
      rw [← isFirst]
      simpa [referencedStatement, shape] using head

/-- The events of a server frame describe the cycle in front. -/
theorem names_of_backend
    {s : ConnectionState}
    {f : Frame}
    {e : Event}
    {c : Cycle}
    (member : e ∈ (s.backend f).1)
    (front : s.cycles.head? = some c) :
    Names c.id (referencedStatement false c) e ∧
      e.statementIndex = referencedIndex false c := by
  have same := (mem_backend member).2.1
  have cycle := congrArg Coordinates.queryCycle same
  have kind := congrArg Coordinates.statementClass same
  have fingerprint := congrArg Coordinates.sqlFingerprint same
  have index := congrArg Coordinates.statementIndex same
  simp only [Event.coordinates, ConnectionState.coordinates, referenced, front,
    Bool.false_eq_true, if_false, Option.map_some, Option.getD_some]
    at cycle kind fingerprint index
  exact ⟨⟨cycle, kind, fingerprint⟩, index⟩

/-- The counters of an `Execute` and of its reply. -/
theorem AnswersExecute.indices
    {σ : Session}
    {g : Group Announcement}
    {r : Request Announcement}
    {c : Cycle}
    (answers : AnswersExecute σ g r c)
    (unsuppressed : σ.suppressed = false) :
    referencedIndex false c = g.outcomes.count .commandComplete + 1 ∧
      (∀ a ∈ r.note.raised, a.statementIndex = g.outcomes.length + 1) ∧
      r.note.clean = true := by
  obtain ⟨index, -, enough, clean, indices⟩ :=
    answers.part.counted unsuppressed
  have first := answers.first
  cases shape : executes g with
  | nil =>
      simp [shape] at first
  | cons x rest =>
      have isFirst : x = r := by simpa [shape] using first
      subst isFirst
      refine ⟨?_, ?_, clean x (by simp [shape])⟩
      · have waits : c.statements ≠ [] := by
          intro none
          simp [shape, none] at enough
        simp [referencedIndex, waits, index]
      · intro a member
        exact indices 0 x (by simp [shape]) a member

/-- A reply that reports on a statement comes neither at any time nor last. -/
theorem tags_of_reportsStatement
    {f : Frame}
    (reports : reportsStatement f.backendTag = true) :
    Server.isAsync f.backendTag = false ∧ f.backendTag ≠ .readyForQuery := by
  simp only [reportsStatement, decide_eq_true_eq] at reports
  rcases reports with tag | tag <;> simp [Server.isAsync, tag]

theorem exists_statement_event
    {f : Frame}
    (reports : reportsStatement f.backendTag = true)
    (s : ConnectionState) :
    ∃ e ∈ (s.backend f).1, e.event ∈ statementEvents := by
  have raised (name : String) (isRaised : name ∈ s.backendNames f)
      (isStatement : name ∈ statementEvents) :
      ∃ e ∈ (s.backend f).1, e.event ∈ statementEvents := by
    obtain ⟨e, member, named⟩ := exists_backend_event isRaised
    exact ⟨e, member, by rw [named]; exact isStatement⟩
  simp only [reportsStatement, decide_eq_true_eq] at reports
  rcases reports with tag | tag
  · exact raised "result.row" (by simp [backendNames, tag])
      (by simp [statementEvents])
  · exact raised "result.completed" (by simp [backendNames, tag])
      (by simp [statementEvents])

theorem reportsStatement_of_event
    {s : ConnectionState}
    {f : Frame}
    {e : Event}
    (member : e ∈ (s.backend f).1)
    (named : e.event ∈ statementEvents) :
    reportsStatement f.backendTag = true := by
  have raised := (mem_backend member).1
  generalize e.event = name at named raised
  unfold backendNames at raised
  cases tag : f.backendTag <;> simp only [tag] at raised
  case dataRow =>
    rfl
  case commandComplete =>
    rfl
  case readyForQuery =>
    cases status : statusOf f.body with
    | none =>
        simp [status] at raised
    | some known =>
        rw [status] at raised
        have apart : ∀ x ∈ readyEvents, x ∉ statementEvents := by decide
        exact absurd named (apart name (mem_readyEvents raised))
  all_goals
    simp only [List.mem_cons, List.not_mem_nil, or_false] at raised
  all_goals
    subst raised
    simp [statementEvents] at named

/-- Agreeing coordinates show that every earlier statement was completed. -/
theorem allCompleted_of_sameCoordinates
    {σ : Session}
    {f : Frame}
    (unsuppressed : Unsuppressed σ)
    (expected : σ.server.expects f = true)
    (same : σ.SameCoordinates (.server f)) :
    σ.AllCompleted (.server f) := by
  rintro reports reliable ⟨g, r⟩ answered execute outcome inGroup
  obtain ⟨notAsync, notReady⟩ := tags_of_reportsStatement reports
  obtain ⟨c, answers⟩ := unsuppressed.faithful.answersExecute expected
    notAsync notReady answered execute
  obtain ⟨index, indices, -⟩ := answers.indices unsuppressed.suppressed
  obtain ⟨a, announced, isExecute⟩ :=
    answers.part.raises r (List.mem_of_mem_head? answers.first)
  obtain ⟨e, member, named⟩ := exists_statement_event reports σ.state
  have agree :=
    same (g, r) answered execute e member named
      ((mem_backend member).2.2.2.trans reliable) a announced isExecute
  have counts :
      g.outcomes.count .commandComplete + 1 = g.outcomes.length + 1 := by
    rw [← index, ← indices a announced,
      ← (names_of_backend member answers.front).2]
    exact congrArg Coordinates.statementIndex agree
  have all : g.outcomes.count .commandComplete = g.outcomes.length := by
    omega
  exact (List.count_eq_length.mp all outcome inGroup).symm

/-- Where every earlier statement was completed, the coordinates agree. -/
theorem sameCoordinates_of_allCompleted
    {σ : Session}
    {f : Frame}
    (unsuppressed : Unsuppressed σ)
    (expected : σ.server.expects f = true)
    (completed : σ.AllCompleted (.server f)) :
    σ.SameCoordinates (.server f) := by
  rintro ⟨g, r⟩ answered execute e member named reliable a announced -
  have reports := reportsStatement_of_event member named
  obtain ⟨notAsync, notReady⟩ := tags_of_reportsStatement reports
  obtain ⟨c, answers⟩ := unsuppressed.faithful.answersExecute expected
    notAsync notReady answered execute
  obtain ⟨index, indices, clean⟩ := answers.indices unsuppressed.suppressed
  have all : ∀ outcome ∈ g.outcomes, outcome = .commandComplete :=
    completed reports ((mem_backend member).2.2.2.symm.trans reliable) (g, r)
      answered execute
  have noEmpty : .emptyQueryResponse ∉ g.outcomes := by
    intro empty
    cases all _ empty
  have counts : g.outcomes.count .commandComplete = g.outcomes.length :=
    List.count_eq_length.mpr fun outcome inGroup => (all outcome inGroup).symm
  have asked := answers.announces clean noEmpty a announced
  obtain ⟨told, reported⟩ := names_of_backend member answers.front
  unfold Event.coordinates
  rw [told.queryCycle, told.statementClass, told.sqlFingerprint, reported,
    asked.queryCycle, asked.statementClass, asked.sqlFingerprint, index,
    indices a announced, counts]

/--
One turn: the coordinates agree just where every earlier statement of the group
has ended in `CommandComplete`.
-/
theorem sameCoordinates_iff
    {σ : Session}
    {turn : Turn}
    (unsuppressed : Unsuppressed σ)
    (forwards : σ.Forwards turn) :
    σ.SameCoordinates turn ↔ σ.AllCompleted turn := by
  cases turn with
  | dropped f =>
      exact forwards.elim
  | client f =>
      exact Iff.rfl
  | forwarded =>
      exact Iff.rfl
  | server f =>
      exact ⟨allCompleted_of_sameCoordinates unsuppressed forwards,
        sameCoordinates_of_allCompleted unsuppressed forwards⟩

/--
Front and back coordinates of a statement agree in a session, if and only if
every reliable report on an `Execute` finds all earlier statements of its group
ended by `CommandComplete`.
-/
theorem coordinates_agree
    (sha256 : Bytes → String)
    (id : Nat)
    (startup : StartupMetadata)
    (greeting : List Frame)
    (turns : List Turn)
    (forwards :
      Machine.Permitted Forwards (step sha256)
        (start sha256 id startup greeting) turns) :
    Machine.Permitted SameCoordinates (step sha256)
        (start sha256 id startup greeting) turns ↔
      Machine.Permitted AllCompleted (step sha256)
        (start sha256 id startup greeting) turns := by
  have initial : Unsuppressed (start sha256 id startup greeting) :=
    ⟨faithful_start sha256 id startup greeting, rfl⟩
  have keeps (σ : Session) (turn : Turn) (unsuppressed : Unsuppressed σ)
      (forwarded : σ.Forwards turn) :
      Unsuppressed (σ.step sha256 turn) :=
    unsuppressed.step forwarded
  constructor
  · exact Machine.permitted_imp keeps
      (fun σ turn unsuppressed forwarded =>
        (sameCoordinates_iff unsuppressed forwarded).mp)
      initial forwards
  · exact Machine.permitted_imp keeps
      (fun σ turn unsuppressed forwarded =>
        (sameCoordinates_iff unsuppressed forwarded).mpr)
      initial forwards

instance decidableSameCoordinates (σ : Session) :
    (turn : Turn) → Decidable (σ.SameCoordinates turn)
  | .dropped _ => inferInstanceAs (Decidable True)
  | .client _ => inferInstanceAs (Decidable True)
  | .forwarded => inferInstanceAs (Decidable True)
  | .server f =>
      inferInstanceAs (Decidable (∀ answered ∈ σ.answered,
        answered.2.frame.frontendTag = .execute →
        ∀ e ∈ (σ.state.backend f).1,
          e.event ∈ statementEvents →
          e.semanticReliable = true →
          ∀ a ∈ answered.2.note.raised,
            a.event = "frontend.execute" →
            e.coordinates = a.coordinates))

instance decidableAllCompleted (σ : Session) :
    (turn : Turn) → Decidable (σ.AllCompleted turn)
  | .dropped _ => inferInstanceAs (Decidable True)
  | .client _ => inferInstanceAs (Decidable True)
  | .forwarded => inferInstanceAs (Decidable True)
  | .server f =>
      inferInstanceAs (Decidable (reportsStatement f.backendTag = true →
        σ.state.reliable = true →
        ∀ answered ∈ σ.answered,
          answered.2.frame.frontendTag = .execute →
          ∀ outcome ∈ answered.1.outcomes, outcome = .commandComplete))

/-- Two statements in one group, the first one completed or suspended. -/
def twoStatements (first : Frame) : List Turn :=
  (unnamedFrames "SELECT 1" ++ unnamedFrames "SELECT 2").map Turn.client ++
    [.client (message 'S' [])] ++
    [.server (message '1' []), .server (message '2' []),
      .server rowOfOne, .server first,
      .server (message '1' []), .server (message '2' []),
      .server (message 'C' (ascii "SELECT 1" ++ [0])),
      .server (message 'Z' (ascii "I"))]

theorem coordinates_agree_completed :
    Machine.Permitted SameCoordinates (step sampleSha256)
      (start sampleSha256 1 default [message 'Z' (ascii "I")])
      (twoStatements (message 'C' (ascii "SELECT 1" ++ [0]))) := by
  refine (coordinates_agree sampleSha256 1 default [message 'Z' (ascii "I")]
    (twoStatements (message 'C' (ascii "SELECT 1" ++ [0]))) ?_).mpr ?_
  · decide +kernel
  · decide +kernel

/-- Behind a suspended portal the reply counts one statement too few. -/
theorem coordinates_disagree_suspended :
    ¬ ∀ (sha256 : Bytes → String) (id : Nat) (startup : StartupMetadata)
        (greeting : List Frame) (turns : List Turn),
        Machine.Permitted Forwards (step sha256)
          (start sha256 id startup greeting) turns →
        Machine.Permitted SameCoordinates (step sha256)
          (start sha256 id startup greeting) turns := by
  intro always
  have same :=
    always sampleSha256 1 default [message 'Z' (ascii "I")]
      (twoStatements (message 's' [])) (by decide +kernel)
  revert same
  decide +kernel

end Session

end Pgfault
