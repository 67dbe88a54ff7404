import Pgfault.CommitSoundness
import Pgfault.ConformingServer

namespace Pgfault

open Queue ConnectionState

/-!
# Prediction and decision

`completionBoundary` predicts a completion when a `CommandComplete` arrives;
`completed` decides it at the `ReadyForQuery`.  The first reads the statement
that is being answered, the second the statement that ended last, and a
`PortalSuspended` ends a statement without storing a command tag.  `Agree`
compares the two tables; the two agree in a run exactly where it holds of every
cycle that ends idle.

The same reading shows which predicted commits are reported.
-/

/-- What the prediction table says of the statement a tag answers. -/
def StatementClass.foretells
    (kind : StatementClass)
    (tag : String)
    (session : TxState) : Option String :=
  match kind with
  | .commit =>
      if tag = "COMMIT" then some "transaction.commit.completed" else none
  | .rollback =>
      if tag = "ROLLBACK" then some "transaction.rollback.completed" else none
  | .begin => none
  | .other => none
  | _ =>
      if session = .idle then some "transaction.implicit.completed" else none

/-- A statement of its own outside a transaction. -/
def StatementClass.isPlain : StatementClass → Bool
  | .commit => false
  | .rollback => false
  | .begin => false
  | .other => false
  | _ => true

/--
How the statement that ended last in a cycle and the one its last tag answered
must fit: a `COMMIT` that ended last with the tag of one is the one answered, a
`ROLLBACK` likewise, and behind any other statement but one of no known class,
from an idle session, a plain statement was answered.
-/
def Agree
    (last answered : StatementClass)
    (tag : String)
    (session : TxState) : Prop :=
  match last with
  | .commit => tag = "COMMIT" → answered = .commit
  | .rollback => tag = "ROLLBACK" → answered = .rollback
  | .other => True
  | _ => session = .idle → tag ≠ "" → answered.isPlain = true

instance decidableAgree
    (last answered : StatementClass)
    (tag : String)
    (session : TxState) :
    Decidable (Agree last answered tag session) := by
  unfold Agree
  cases last <;> infer_instance

namespace History

/-- What was predicted at the last `CommandComplete` of the front cycle. -/
def predicted (since : List Handled) : Option String :=
  (lastComplete since).bind fun x => x.state.completionBoundary x.frame

/-- Every completion a call raises was predicted. -/
def Predicts (h : History) : Call → Prop
  | .backend f =>
      ∀ e ∈ (h.state.backend f).1,
        isCompletionName e.event = true →
        predicted h.sinceFront = some e.event
  | _ => True

/-- The tag of the last `CommandComplete` of a cycle. -/
def tagOf (complete : Handled) : String :=
  (text complete.frame.body).getD ""

/--
Where a reliable cycle without an error ends idle, the statement that ended last
in it and the one that its last `CommandComplete` answered agree.
-/
def Settles (h : History) : Call → Prop
  | .backend f =>
      readyStatus f = some .idle →
      h.state.reliable = true →
      ∀ c ∈ h.state.cycles.head?,
        c.error = false →
        ∀ complete ∈ lastComplete h.sinceFront,
          ∀ reply ∈ lastReply h.sinceFront,
            Agree reply.answered.statementClass
              complete.answered.statementClass (tagOf complete)
              h.state.txState
  | _ => True

/-- A `COMMIT` is never suspended. -/
def CompletesCommit (h : History) : Call → Prop
  | .backend f =>
      f.backendTag = .portalSuspended →
      (Handled.mk h.state f).answered.statementClass ≠ .commit
  | _ => True

instance decidablePredicts (h : History) :
    (call : Call) → Decidable (h.Predicts call)
  | .frontend _ => inferInstanceAs (Decidable True)
  | .forwarded => inferInstanceAs (Decidable True)
  | .backend f =>
      inferInstanceAs (Decidable (∀ e ∈ (h.state.backend f).1,
        isCompletionName e.event = true →
        predicted h.sinceFront = some e.event))

instance decidableSettles (h : History) :
    (call : Call) → Decidable (h.Settles call)
  | .frontend _ => inferInstanceAs (Decidable True)
  | .forwarded => inferInstanceAs (Decidable True)
  | .backend f =>
      inferInstanceAs (Decidable (readyStatus f = some .idle →
        h.state.reliable = true →
        ∀ c ∈ h.state.cycles.head?,
          c.error = false →
          ∀ complete ∈ lastComplete h.sinceFront,
            ∀ reply ∈ lastReply h.sinceFront,
              Agree reply.answered.statementClass
                complete.answered.statementClass (tagOf complete)
                h.state.txState))

instance decidableCompletesCommit (h : History) :
    (call : Call) → Decidable (h.CompletesCommit call)
  | .frontend _ => inferInstanceAs (Decidable True)
  | .forwarded => inferInstanceAs (Decidable True)
  | .backend f =>
      inferInstanceAs (Decidable (f.backendTag = .portalSuspended →
        (Handled.mk h.state f).answered.statementClass ≠ .commit))

/-- A property of every call of a run. -/
def Along
    (sha256 : Bytes → String)
    (id : Nat)
    (startup : StartupMetadata)
    (property : History → Call → Prop)
    (calls : List Call) : Prop :=
  Machine.Permitted property (step sha256) (start id startup) calls

/-- A handled completion is the last reply or stands in front of it. -/
theorem lastReply_isSome
    {since : List Handled}
    {complete : Handled}
    (latest : lastComplete since = some complete) :
    ∃ reply, lastReply since = some reply := by
  unfold lastComplete at latest
  have member := List.mem_of_getLast? latest
  obtain ⟨handled, isComplete⟩ := List.mem_filter.mp member
  unfold lastReply
  cases found :
      (since.filter fun h =>
        h.frame.backendTag == .commandComplete ||
          h.frame.backendTag == .portalSuspended).getLast? with
  | some reply =>
      exact ⟨reply, rfl⟩
  | none =>
      rw [List.getLast?_eq_none_iff, List.filter_eq_nil_iff] at found
      have notReply := found complete handled
      simp [isComplete] at notReply

theorem lastComplete_tag
    {since : List Handled}
    {complete : Handled}
    (latest : lastComplete since = some complete) :
    complete ∈ since ∧ complete.frame.backendTag = .commandComplete := by
  have filtered := List.mem_filter.mp (List.mem_of_getLast? latest)
  exact ⟨filtered.1, by simpa using filtered.2⟩

/-- The prediction table, read for the statement a frame answers. -/
theorem completionBoundary_eq
    {x : Handled}
    {tag : String}
    (complete : x.frame.backendTag = .commandComplete)
    (reliable : x.state.reliable = true)
    (present : x.state.cycles ≠ [])
    (read : text x.frame.body = some tag) :
    x.state.completionBoundary x.frame =
      x.answered.statementClass.foretells tag x.state.txState := by
  unfold completionBoundary
  rw [if_pos ⟨complete, reliable⟩]
  cases queue : x.state.cycles with
  | nil =>
      exact absurd queue present
  | cons c rest =>
      have statement :
          x.answered = c.statements.head?.getD c.last := by
        simp [Handled.answered, queue, referencedStatement]
      rw [statement]
      -- Both sides are now the same decision on the class of that statement.
      cases isClass : (c.statements.head?.getD c.last).statementClass <;>
        simp only [List.head?_cons, read, isClass, StatementClass.foretells]

/-- The names the decision table gives the statement that ended last. -/
def Decides
    (last : StatementClass)
    (tag : String)
    (session : TxState)
    (name : String) : Prop :=
  (name = "transaction.commit.completed" ∧ last = .commit ∧ tag = "COMMIT") ∨
    (name = "transaction.rollback.completed" ∧ last = .rollback ∧
      tag = "ROLLBACK") ∨
    (name = "transaction.implicit.completed" ∧ last ≠ .commit ∧
      last ≠ .rollback ∧ last ≠ .other ∧ session = .idle ∧ tag ≠ "")

/-- The two tables agree on a tag just where the two statements do. -/
theorem agree_iff
    (last answered : StatementClass)
    (tag : String)
    (session : TxState) :
    Agree last answered tag session ↔
      ∀ name,
        Decides last tag session name →
        answered.foretells tag session = some name := by
  constructor
  · rintro agree name
      (⟨rfl, rfl, rfl⟩ | ⟨rfl, rfl, rfl⟩ |
        ⟨rfl, notCommit, notRollback, notOther, rfl, tagged⟩)
    · rw [agree rfl]
      rfl
    · rw [agree rfl]
      rfl
    · have plain : answered.isPlain = true := by
        cases last <;> first | contradiction | exact agree rfl tagged
      cases answered <;> first | rfl | cases plain
  · intro all
    have implicit
        (notCommit : last ≠ .commit)
        (notRollback : last ≠ .rollback)
        (notOther : last ≠ .other)
        (idle : session = .idle)
        (tagged : tag ≠ "") :
        answered.isPlain = true := by
      have told :=
        all "transaction.implicit.completed"
          (Or.inr (Or.inr
            ⟨rfl, notCommit, notRollback, notOther, idle, tagged⟩))
      cases answered <;>
        simp [StatementClass.foretells, StatementClass.isPlain] at told ⊢
    cases last with
    | commit =>
        intro isTag
        have told := all _ (Or.inl ⟨rfl, rfl, isTag⟩)
        cases answered <;> simp [StatementClass.foretells] at told ⊢
    | rollback =>
        intro isTag
        have told := all _ (Or.inr (Or.inl ⟨rfl, rfl, isTag⟩))
        cases answered <;> simp [StatementClass.foretells] at told ⊢
    | other =>
        trivial
    | _ =>
        exact implicit (by decide) (by decide) (by decide)

/-- What is decided of a cycle, in terms of the frames it has seen. -/
theorem completes_iff
    {h : History}
    (history : CycleHistory h)
    {complete reply : Handled}
    (latest : lastComplete h.sinceFront = some complete)
    (replied : lastReply h.sinceFront = some reply)
    {c : Cycle}
    (front : h.state.cycles.head? = some c)
    (status : TxState)
    (name : String) :
    Completes h.state status name c ↔
      status = .idle ∧ c.error = false ∧ h.state.reliable = true ∧
        Decides reply.answered.statementClass (tagOf complete)
          h.state.txState name := by
  have frontHistory := history.front c front
  have command : c.command = tagOf complete := by
    rw [frontHistory.command, latest]
    rfl
  have last : c.last = reply.answered := frontHistory.last reply replied
  rw [← command, ← last]
  constructor
  · rintro ⟨-, idle, succeeded, reliable, decided⟩
    exact ⟨idle, succeeded, reliable, decided⟩
  · rintro ⟨idle, succeeded, reliable, decided⟩
    exact ⟨front, idle, succeeded, reliable, decided⟩

/-- What was predicted at the last `CommandComplete` of a reliable cycle. -/
theorem predicted_eq
    {h : History}
    (history : CycleHistory h)
    {complete : Handled}
    (latest : lastComplete h.sinceFront = some complete)
    (reliable : h.state.reliable = true)
    {c : Cycle}
    (front : h.state.cycles.head? = some c)
    (tagged : tagOf complete ≠ "") :
    predicted h.sinceFront =
      complete.answered.statementClass.foretells (tagOf complete)
        h.state.txState := by
  have frontHistory := history.front c front
  obtain ⟨member, isComplete⟩ := lastComplete_tag latest
  cases read : text complete.frame.body with
  | none =>
      simp [tagOf, read] at tagged
  | some tag =>
      have isTag : tagOf complete = tag := by
        simp [tagOf, read]
      rw [predicted, latest, Option.bind_some, isTag,
        completionBoundary_eq isComplete
          (frontHistory.reliable reliable complete member)
          (frontHistory.present complete member) read,
        frontHistory.status complete member]

/-- Only a cycle with a tag completes. -/
theorem Decides.tagged
    {last : StatementClass}
    {tag name : String}
    {session : TxState}
    (decides : Decides last tag session name) :
    tag ≠ "" := by
  rcases decides with ⟨-, -, rfl⟩ | ⟨-, -, rfl⟩ | ⟨-, -, -, -, -, tagged⟩
  · decide
  · decide
  · exact tagged

/-- A completion is decided where one is raised. -/
theorem predicts_iff (h : History) (f : Frame) :
    h.Predicts (.backend f) ↔
      ∀ status name c,
        readyStatus f = some status →
        Completes h.state status name c →
        predicted h.sinceFront = some name := by
  constructor
  · intro predicts status name c ready completes
    have named : name ∈ h.state.backendNames f := by
      have decision := completes.completed
      rw [completes.idle] at ready decision
      obtain ⟨tag, isIdle⟩ := body_of_idle ready
      simp [backendNames, tag, isIdle, statusOf, readyNames, decision]
    obtain ⟨e, raised, rfl⟩ := exists_backend_event named
    refine predicts e raised ?_
    rcases completes.decided with ⟨isName, -⟩ | ⟨isName, -⟩ | ⟨isName, -⟩ <;>
      rw [isName] <;> rfl
  · intro all e member completion
    obtain ⟨status, ready, decision⟩ :=
      completed_of_mem_backendNames completion (mem_backend member).1
    obtain ⟨c, completes⟩ := completes_of_completed decision
    exact all status e.event c ready completes

/-- One `ReadyForQuery`: prediction and decision agree if the statements do. -/
theorem predicts_iff_settles
    {h : History}
    (history : CycleHistory h)
    (call : Call) :
    h.Settles call ↔ h.Predicts call := by
  cases call with
  | frontend _ =>
      exact Iff.rfl
  | forwarded =>
      exact Iff.rfl
  | backend f =>
      rw [predicts_iff]
      constructor
      · intro settles status name c ready completes
        have front := completes.front
        have tagged : c.command ≠ "" := by
          have decided : Decides c.last.statementClass c.command
              h.state.txState name := completes.decided
          exact decided.tagged
        cases latest : lastComplete h.sinceFront with
        | none =>
            rw [(history.front c front).command, latest] at tagged
            exact absurd rfl tagged
        | some complete =>
            obtain ⟨reply, replied⟩ := lastReply_isSome latest
            obtain ⟨rfl, succeeded, reliable, decides⟩ :=
              (completes_iff history latest replied front status name).mp
                completes
            have agree :=
              settles ready reliable c front succeeded complete latest reply
                replied
            rw [predicted_eq history latest reliable front decides.tagged]
            exact (agree_iff _ _ _ _).mp agree name decides
      · intro all ready reliable c front succeeded complete latest reply replied
        rw [agree_iff]
        intro name decides
        rw [← predicted_eq history latest reliable front decides.tagged]
        exact all .idle name c ready
          ((completes_iff history latest replied front _ name).mpr
            ⟨rfl, succeeded, reliable, decides⟩)

/--
Prediction and decision agree in a run if and only if, wherever a reliable cycle
without an error ends idle, the statement that ended last in it agrees with the
one its last `CommandComplete` answered.
-/
theorem prediction_agrees
    (sha256 : Bytes → String)
    (id : Nat)
    (startup : StartupMetadata)
    (calls : List Call) :
    Along sha256 id startup Settles calls ↔
      Along sha256 id startup Predicts calls := by
  have keeps (h : History) (call : Call) (history : CycleHistory h) :
      CycleHistory (h.step sha256 call) :=
    history.step call
  have start := cycleHistory_start id startup
  constructor
  · intro settles
    exact Machine.permitted_imp (fun h call history _ => keeps h call history)
      (fun _ call history _ => (predicts_iff_settles history call).mp)
      start settles settles
  · intro predicts
    exact Machine.permitted_imp (fun h call history _ => keeps h call history)
      (fun _ call history _ => (predicts_iff_settles history call).mpr)
      start predicts predicts

/-- The client side of one unnamed extended statement. -/
def unnamed (sql : String) : List Call :=
  (unnamedFrames sql).map Call.frontend

/-- A server frame with an ASCII body. -/
def sends (tag : Char) (body : Bytes) : Call :=
  .backend (message tag body)

/-- A transaction: its `BEGIN`, an insert in a group of its own, its `COMMIT`. -/
def wholeTransaction : List Call :=
  [.frontend (message 'Q' (ascii "BEGIN" ++ [0])),
    sends 'C' (ascii "BEGIN" ++ [0]), sends 'Z' (ascii "T")] ++
    unnamed "INSERT INTO t VALUES (1)" ++ [.frontend (message 'S' [])] ++
    [sends '1' [], sends '2' [], sends 'C' (ascii "INSERT 0 1" ++ [0]),
      sends 'Z' (ascii "T")] ++
    [.frontend (message 'Q' (ascii "COMMIT" ++ [0])),
      sends 'C' (ascii "COMMIT" ++ [0]), sends 'Z' (ascii "I")]

theorem prediction_agrees_wholeTransaction :
    Server.Conforming wholeTransaction ∧
      Along sampleSha256 1 default Settles wholeTransaction ∧
      Along sampleSha256 1 default Predicts wholeTransaction := by
  have settles : Along sampleSha256 1 default Settles wholeTransaction := by
    unfold Along
    decide +kernel
  exact ⟨by decide +kernel, settles,
    (prediction_agrees _ 1 default wholeTransaction).mp settles⟩

/-- One group: a completed `SET`, then a suspended `SELECT`. -/
def suspendedBehindSet : List Call :=
  unnamed "SET x = 1" ++ unnamed "SELECT 1" ++ [.frontend (message 'S' [])] ++
    [sends '1' [], sends '2' [], sends 'C' (ascii "SET" ++ [0]),
      sends '1' [], sends '2' [], .backend rowOfOne, sends 's' [],
      sends 'Z' (ascii "I")]

/-- A suspended `SELECT` completes what the `SET` in front of it did not. -/
theorem prediction_disagrees_suspendedBehindSet :
    ¬ ∀ (sha256 : Bytes → String) (id : Nat) (startup : StartupMetadata)
        (calls : List Call),
        Server.Conforming calls →
        Along sha256 id startup CompletesCommit calls →
        Along sha256 id startup Predicts calls := by
  intro always
  have along :=
    always sampleSha256 1 default suspendedBehindSet (by decide +kernel)
      (by unfold Along; decide +kernel)
  revert along
  unfold Along
  decide +kernel

/-! ## Which commits are reported -/

/-- A reply that ends a statement. -/
def endsStatement (x : Handled) : Bool :=
  x.frame.backendTag == .commandComplete ||
    x.frame.backendTag == .portalSuspended

/-- A `CommandComplete` that was predicted to complete a commit. -/
def predictsCommit (x : Handled) : Bool :=
  x.frame.backendTag == .commandComplete &&
    x.state.completionBoundary x.frame == some "transaction.commit.completed"

/-- A predicted commit was the answer to a `COMMIT` with the tag `COMMIT`. -/
theorem predictsCommit_spec
    {x : Handled}
    (predicts : predictsCommit x = true) :
    x.frame.backendTag = .commandComplete ∧
      text x.frame.body = some "COMMIT" ∧
      x.answered.statementClass = .commit ∧ x.state.cycles ≠ [] := by
  simp only [predictsCommit, Bool.and_eq_true, beq_iff_eq] at predicts
  obtain ⟨complete, boundary⟩ := predicts
  have asked := boundary
  unfold completionBoundary at asked
  split at asked
  · next trusted =>
      cases queue : x.state.cycles with
      | nil =>
          simp [queue] at asked
      | cons c rest =>
          cases read : text x.frame.body with
          | none =>
              simp [queue, read] at asked
          | some tag =>
              have present : x.state.cycles ≠ [] := by simp [queue]
              rw [completionBoundary_eq complete trusted.2 present read]
                at boundary
              cases kind : x.answered.statementClass <;>
                simp only [kind, StatementClass.foretells] at boundary
              case commit =>
                split at boundary
                · next isTag =>
                    exact ⟨complete, by rw [isTag], rfl, by simp⟩
                · cases boundary
              all_goals simp at boundary
  · cases asked

/-- The last reply behind a predicted commit is again one. -/
theorem lastReply_of_commits
    (earlier : List Handled)
    {later : List Handled}
    {x : Handled}
    (predicts : predictsCommit x = true)
    (again : ∀ y ∈ later, endsStatement y = true → predictsCommit y = true) :
    ∃ y,
      lastReply (earlier ++ x :: later) = some y ∧
        lastComplete (earlier ++ x :: later) = some y ∧
        predictsCommit y = true := by
  have complete := (predictsCommit_spec predicts).1
  induction later using List.reverseRecOn with
  | nil =>
      refine ⟨x, ?_, ?_, predicts⟩
      · rw [lastReply_concat, if_pos (Or.inl complete)]
      · rw [lastComplete_concat, if_pos complete]
  | append_singleton before y inductionHypothesis =>
      have found := inductionHypothesis fun z member =>
        again z (by simp [member])
      have shape :
          earlier ++ x :: (before ++ [y]) = (earlier ++ x :: before) ++ [y] := by
        simp
      rw [shape, lastReply_concat, lastComplete_concat]
      by_cases ends_ : endsStatement y = true
      · have predictsToo := again y (by simp) ends_
        have completeToo := (predictsCommit_spec predictsToo).1
        rw [if_pos (Or.inl completeToo), if_pos completeToo]
        exact ⟨y, rfl, rfl, predictsToo⟩
      · have neither :
            ¬ (y.frame.backendTag = .commandComplete ∨
              y.frame.backendTag = .portalSuspended) := by
          simpa [endsStatement] using ends_
        have notComplete : y.frame.backendTag ≠ .commandComplete :=
          fun isComplete => neither (Or.inl isComplete)
        rw [if_neg neither, if_neg notComplete]
        exact found

/--
A predicted commit is reported at an idle `ReadyForQuery` when the cycle is
reliable, has seen no error, and every statement that ended behind it in the
cycle was again a completed `COMMIT`.
-/
theorem predicted_commit_reported
    (sha256 : Bytes → String)
    (id : Nat)
    (startup : StartupMetadata)
    (calls : List Call)
    (f : Frame)
    (earlier later : List Handled)
    (x : Handled)
    (idle : readyStatus f = some .idle)
    (since :
      (run sha256 id startup calls).sinceFront = earlier ++ x :: later)
    (predicts : predictsCommit x = true)
    (noError :
      ∀ y ∈ (run sha256 id startup calls).sinceFront,
        y.frame.backendTag ≠ .errorResponse)
    (reliable : (run sha256 id startup calls).state.reliable = true)
    (again : ∀ y ∈ later, endsStatement y = true → predictsCommit y = true) :
    ∃ e ∈ ((run sha256 id startup calls).state.backend f).1,
      e.event = "transaction.commit.completed" ∧
        frontId (run sha256 id startup calls).state = some e.queryCycle := by
  have history := cycleHistory_run sha256 id startup calls
  have same := sameFront_run sha256 id startup calls
  generalize run sha256 id startup calls = h
    at history same since noError reliable ⊢
  obtain ⟨y, replied, latest, commits⟩ :=
    lastReply_of_commits earlier predicts again
  rw [← since] at replied latest
  obtain ⟨-, read, kind, present⟩ := predictsCommit_spec commits
  -- The cycle that was in front of the commit still is.
  have stillFront := same y (lastComplete_tag latest).1
  cases front : h.state.cycles.head? with
  | none =>
      have gone : frontId h.state = none := by simp [frontId, front]
      rw [gone] at stillFront
      simp [frontId, present] at stillFront
  | some c =>
      have frontHistory := history.front c front
      have succeeded : c.error = false := by
        by_contra failed
        obtain ⟨z, member, isError⟩ :=
          frontHistory.error.mp (by simpa using failed)
        exact noError z member isError
      have completes :
          Completes h.state .idle "transaction.commit.completed" c := by
        refine ⟨front, rfl, succeeded, reliable, Or.inl ⟨rfl, ?_, ?_⟩⟩
        · rw [frontHistory.last y replied]
          exact kind
        · rw [frontHistory.command, latest, Option.bind_some, read]
          rfl
      have named : "transaction.commit.completed" ∈ h.state.backendNames f := by
        have ready : f.backendTag = .readyForQuery := (body_of_idle idle).1
        have status : statusOf f.body = some .idle := by
          simpa [readyStatus, ready] using idle
        simp [backendNames, ready, status, readyNames, completes.completed]
      obtain ⟨e, raised, isCommit⟩ := exists_backend_event named
      refine ⟨e, raised, isCommit, ?_⟩
      have located :=
        congrArg Coordinates.queryCycle (mem_backend raised).2.1
      have isFront : e.queryCycle = c.id := by
        simpa [Event.coordinates, ConnectionState.coordinates, referenced,
          front] using located
      simp [frontId, front, isFront]

/-- An open transaction is committed and the next one begun in one group. -/
def commitThenBegin : List Call :=
  [.frontend (message 'Q' (ascii "BEGIN" ++ [0])),
    sends 'C' (ascii "BEGIN" ++ [0]), sends 'Z' (ascii "T")] ++
    unnamed "COMMIT" ++ unnamed "BEGIN" ++ [.frontend (message 'S' [])] ++
    [sends '1' [], sends '2' [], sends 'C' (ascii "COMMIT" ++ [0]),
      sends '1' [], sends '2' [], sends 'C' (ascii "BEGIN" ++ [0])]

/-- The commit is predicted, but its group does not end idle. -/
theorem predicted_commit_unreported_commitThenBegin :
    ¬ ∀ (sha256 : Bytes → String) (id : Nat) (startup : StartupMetadata)
        (calls : List Call) (f : Frame),
        Server.Conforming (calls ++ [.backend f]) →
        (readyStatus f).isSome = true →
        (∃ x ∈ (run sha256 id startup calls).sinceFront,
          predictsCommit x = true) →
        (∀ y ∈ (run sha256 id startup calls).sinceFront,
          y.frame.backendTag ≠ .errorResponse) →
        (run sha256 id startup calls).state.reliable = true →
        ∃ e ∈ (run sha256 id startup calls).raised ++
            ((run sha256 id startup calls).state.backend f).1,
          e.event = "transaction.commit.completed" ∧
            frontId (run sha256 id startup calls).state =
              some e.queryCycle := by
  intro always
  have reported :=
    always sampleSha256 1 default commitThenBegin (message 'Z' (ascii "T"))
      (by decide +kernel) (by decide +kernel) (by decide +kernel)
      (by decide +kernel) (by decide +kernel)
  revert reported
  decide +kernel

/-- An open transaction that is committed by a query of its own. -/
def beginThenCommit : List Call :=
  [.frontend (message 'Q' (ascii "BEGIN" ++ [0])),
    sends 'C' (ascii "BEGIN" ++ [0]), sends 'Z' (ascii "T"),
    .frontend (message 'Q' (ascii "COMMIT" ++ [0])),
    sends 'C' (ascii "COMMIT" ++ [0])]

theorem predicted_commit_reported_beginThenCommit :
    ∃ e ∈ ((run sampleSha256 1 default beginThenCommit).state.backend
        (message 'Z' (ascii "I"))).1,
      e.event = "transaction.commit.completed" ∧
        frontId (run sampleSha256 1 default beginThenCommit).state =
          some e.queryCycle := by
  obtain ⟨x, since, predicts⟩ :
      ∃ x,
        (run sampleSha256 1 default beginThenCommit).sinceFront = [] ++ [x] ∧
          predictsCommit x = true :=
    ⟨_, rfl, by decide +kernel⟩
  exact predicted_commit_reported _ 1 default beginThenCommit
    (message 'Z' (ascii "I")) [] [] x (by decide) since predicts
    (by decide +kernel) (by decide +kernel) (by simp)

end History

end Pgfault
