import Mathlib.Data.List.TakeWhile
import Pgfault.Session

namespace Pgfault

open Queue ConnectionState

/-!
# Cycles and groups of a session

While only `Execute` frames are suppressed, every cycle of the observer belongs
to one group of the session.  `Mirrors` says what the fields of a cycle mean for
its group: which statements wait for the answers of which requests, and how the
counters move.  Every permitted turn keeps it.
-/

namespace Session

/-- An event that names a statement of a cycle. -/
structure Names (number : Nat) (statement : Statement) (e : Event) : Prop where
  queryCycle : e.queryCycle = number
  statementClass : e.statementClass = statement.statementClass
  sqlFingerprint : e.sqlFingerprint = statement.fingerprint

/-- All events a request raised name a statement of a cycle. -/
def Announces
    (number : Nat)
    (r : Request Announcement)
    (statement : Statement) : Prop :=
  ∀ a ∈ r.note.raised, Names number statement a

/-- The `Execute` requests that wait in a group. -/
def executes (g : Group Announcement) : List (Request Announcement) :=
  g.waiting.filter fun r => r.frame.frontendTag == .execute

/-- A group whose frames have created no cycle yet. -/
structure Blank (g : Group Announcement) : Prop where
  untouched : ∀ r ∈ g.waiting, touch r.frame = none
  outcomes : g.outcomes = []
  touched : g.touched = false
  closed : g.closed = false

/-- The cycle of a simple query. -/
structure SimplePart (c : Cycle) (g : Group Announcement) : Prop where
  simple : c.extended = false
  closed : g.closed = true
  statement :
    ∃ r st,
      g.waiting = [r] ∧ r.frame.frontendTag = .query ∧ Announces c.id r st ∧
        (c.statements = [st] ∨ c.statements = [] ∧ c.last = st)

/--
The cycle of an extended group.  The statements that wait in the cycle are those
of the waiting requests as long as none was suppressed and none was answered by
`EmptyQueryResponse`; behind the first suppressed `Execute` only the requests in
front of it are still matched.
-/
structure ExtendedPart
    (spoiled suppressed : Bool)
    (c : Cycle)
    (g : Group Announcement) : Prop where
  extended : c.extended = true
  noQuery : ∀ r ∈ g.waiting, r.frame.frontendTag ≠ .query
  sync :
    ∀ r ∈ g.waiting,
      r.frame.frontendTag = .sync →
      g.closed = true ∧ Announces c.id r (referencedStatement true c)
  attributed :
    .emptyQueryResponse ∉ g.outcomes →
    ∃ clean unclean statements rest,
      executes g = clean ++ unclean ∧
        (∀ r ∈ unclean, r.note.clean = false) ∧
        c.statements = statements ++ rest ∧
        List.Forall₂ (Announces c.id) clean statements ∧
        (g.closed = false → spoiled = false → unclean = [] ∧ rest = [])
  raises :
    ∀ r ∈ executes g, ∃ a ∈ r.note.raised, a.event = "frontend.execute"
  counted :
    suppressed = false →
    c.statementIndex = g.outcomes.count .commandComplete ∧
      c.executions = g.outcomes.length + (executes g).length ∧
      (executes g).length ≤ c.statements.length ∧
      (∀ r ∈ executes g, r.note.clean = true) ∧
      ∀ (i : Nat) (r : Request Announcement),
        (executes g)[i]? = some r →
        ∀ a ∈ r.note.raised, a.statementIndex = g.outcomes.length + i + 1

/-- A cycle and the group it belongs to. -/
structure Mirrors
    (spoiled suppressed : Bool)
    (c : Cycle)
    (g : Group Announcement) : Prop where
  sealed : c.sealed = g.closed
  touched : g.touched = true
  part : SimplePart c g ∨ ExtendedPart spoiled suppressed c g

/-- The invariant of sessions that suppress nothing but `Execute` frames. -/
structure Faithful (σ : Session) : Prop where
  queue :
    ∃ matched tail,
      σ.server.groups = matched ++ tail ∧
        List.Forall₂ (Mirrors σ.spoiled σ.suppressed) σ.state.cycles matched ∧
        (tail = [] ∨ ∃ g, tail = [g] ∧ Blank g)
  closed : ∀ g ∈ σ.server.groups.dropLast, g.closed = true
  inGroup : σ.inGroup = σ.server.isOpen
  spoiled : σ.spoiled = true → σ.suppressed = true

/-! ## Requests that are answered or passed over -/

/-- A request that creates no cycle is no statement and no terminator. -/
theorem tag_of_untouched
    {f : Frame}
    (untouched : touch f = none) :
    f.frontendTag ≠ .execute ∧ f.frontendTag ≠ .query ∧
      f.frontendTag ≠ .sync := by
  unfold touch at untouched
  cases tag : f.frontendTag <;> simp [tag] at untouched ⊢

theorem executes_of_blank
    {g : Group Announcement}
    (blank : Blank g) :
    executes g = [] := by
  unfold executes
  rw [List.filter_eq_nil_iff]
  intro r member
  have notExecute := (tag_of_untouched (blank.untouched r member)).1
  simp [notExecute]

/-- A reply other than `ReadyForQuery` answers a group that has not failed. -/
theorem not_failed_of_expects
    {g : Group Announcement}
    {f : Frame}
    (expected : g.expects f = true)
    (notReady : f.backendTag ≠ .readyForQuery) :
    g.failed = false := by
  by_contra failed
  rw [Bool.not_eq_false] at failed
  unfold Group.expects at expected
  cases due : g.due with
  | nil =>
      simp [due] at expected
  | cons r rest =>
      have kept : g.skips r = false := by
        have shape : g.waiting.dropWhile g.skips = r :: rest := due
        have head := List.head?_dropWhile_not g.skips g.waiting
        rw [shape] at head
        simpa using head
      simp only [Group.skips, failed, decide_eq_false_iff_not, not_or,
        not_and, true_and] at kept
      simp only [due, List.head?_cons, Option.any_some] at expected
      unfold Group.fits at expected
      cases tag : r.frame.frontendTag <;>
        cases reply : f.backendTag <;>
        simp [tag, reply, failed] at expected kept notReady

/-- A reply that ends a statement. -/
def isOutcome (tag : BackendTag) : Bool :=
  tag = .commandComplete ∨ tag = .portalSuspended ∨ tag = .emptyQueryResponse

/-- The requests of a group that is being answered, the front one first. -/
theorem due_cases
    {g : Group Announcement}
    {f : Frame}
    (expected : g.expects f = true)
    (notReady : f.backendTag ≠ .readyForQuery) :
    ∃ r rest,
      g.due = r :: rest ∧ g.fits r.frame.frontendTag f = true ∧
        (r :: rest).Sublist g.waiting ∧
        executes g =
          (r :: rest).filter fun x => x.frame.frontendTag == .execute := by
  have unfailed := not_failed_of_expects expected notReady
  have sublist : g.due.Sublist g.waiting := List.dropWhile_sublist _
  have kept :
      executes g = g.due.filter fun x => x.frame.frontendTag == .execute := by
    have shape : g.waiting.takeWhile g.skips ++ g.due = g.waiting :=
      List.takeWhile_append_dropWhile
    have skipped :
        (g.waiting.takeWhile g.skips).filter
            (fun x => x.frame.frontendTag == .execute) = [] := by
      rw [List.filter_eq_nil_iff]
      intro x member
      have isSkipped := List.mem_takeWhile_imp member
      simp only [Group.skips, unfailed, Bool.false_eq_true, false_and,
        or_false, decide_eq_true_eq] at isSkipped
      simp [isSkipped]
    unfold executes
    rw [← shape, List.filter_append, skipped, List.nil_append]
  cases due : g.due with
  | nil =>
      simp [Group.expects, due] at expected
  | cons r rest =>
      refine ⟨r, rest, rfl, ?_, ?_, ?_⟩
      · simpa [Group.expects, due] using expected
      · rw [← due]
        exact sublist
      · rw [← due]
        exact kept

/-- What a reply does to the group it answers. -/
structure Replies (g h : Group Announcement) (tag : BackendTag) : Prop where
  closed : h.closed = g.closed
  touched : h.touched = g.touched
  waiting : h.waiting.Sublist g.waiting
  effect :
    (isOutcome tag = false ∧ executes h = executes g ∧
        h.outcomes = g.outcomes ∧
        ∀ r, g.waiting = [r] → r.frame.frontendTag = .query → h.waiting = [r]) ∨
      (isOutcome tag = true ∧ h.outcomes = g.outcomes ++ [tag] ∧
        ∃ r, g.due.head? = some r ∧
          (r.frame.frontendTag = .execute ∧ executes g = r :: executes h ∨
            r.frame.frontendTag = .query ∧ tag ≠ .portalSuspended ∧
              h.waiting = g.waiting))

/-- The request in front is done and was no statement. -/
theorem finish_replies
    {g : Group Announcement}
    {f : Frame}
    (expected : g.expects f = true)
    (notReady : f.backendTag ≠ .readyForQuery)
    {tag : BackendTag}
    (quiet : isOutcome tag = false)
    (noStatement :
      ∀ r, g.due.head? = some r →
        r.frame.frontendTag ≠ .execute ∧ r.frame.frontendTag ≠ .query) :
    Replies g g.finish tag := by
  obtain ⟨r, rest, due, -, sublist, same⟩ := due_cases expected notReady
  obtain ⟨notExecute, notQuery⟩ := noStatement r (by rw [due]; rfl)
  have waiting : g.finish.waiting = rest := by
    simp [Group.finish, due]
  refine ⟨rfl, rfl, ?_, Or.inl ⟨quiet, ?_, rfl, ?_⟩⟩
  · rw [waiting]
    exact (List.sublist_cons_self r rest).trans sublist
  · rw [same, executes, waiting]
    simp [notExecute]
  · intro x alone query
    rw [alone] at sublist
    have isFront : r = x := by
      have member := sublist.subset (List.mem_cons_self)
      simpa using member
    rw [isFront] at notQuery
    exact absurd query notQuery

/-- The reply leaves the requests alone. -/
theorem same_replies
    {g h : Group Announcement}
    {tag : BackendTag}
    (quiet : isOutcome tag = false)
    (waiting : h.waiting = g.waiting)
    (outcomes : h.outcomes = g.outcomes)
    (closed : h.closed = g.closed)
    (touched : h.touched = g.touched) :
    Replies g h tag :=
  ⟨closed, touched, by rw [waiting],
    Or.inl ⟨quiet, by rw [executes, executes, waiting], outcomes,
      fun _ alone _ => by rw [waiting, alone]⟩⟩

/-- A statement of the request in front has ended. -/
theorem conclude_replies
    {g : Group Announcement}
    {f : Frame}
    (expected : g.expects f = true)
    (notReady : f.backendTag ≠ .readyForQuery)
    (ends_ : isOutcome f.backendTag = true) :
    Replies g (g.conclude f.backendTag) f.backendTag := by
  obtain ⟨r, rest, due, fits, sublist, same⟩ := due_cases expected notReady
  have front : g.due.head? = some r := by rw [due]; rfl
  unfold Group.conclude
  by_cases execute : r.frame.frontendTag = .execute
  · have isExecute : g.answering .execute = true := by
      simp [Group.answering, due, execute]
    simp only [isExecute, if_true]
    have laterDue :
        Group.due { g with outcomes := g.outcomes ++ [f.backendTag] } =
          r :: rest := due
    have waiting :
        (Group.finish
          { g with outcomes := g.outcomes ++ [f.backendTag] }).waiting =
            rest := by
      simp [Group.finish, laterDue]
    refine ⟨rfl, rfl, ?_, Or.inr ⟨ends_, rfl, r, front, Or.inl ⟨execute, ?_⟩⟩⟩
    · rw [waiting]
      exact (List.sublist_cons_self r rest).trans sublist
    · rw [same, executes, waiting]
      simp [execute]
  · have notExecute : g.answering .execute = false := by
      simp [Group.answering, due, execute]
    simp only [notExecute, Bool.false_eq_true, if_false]
    refine ⟨rfl, rfl, List.Sublist.refl _, Or.inr ⟨ends_, rfl, r, front,
      Or.inr ?_⟩⟩
    unfold Group.fits at fits
    cases tag : r.frame.frontendTag <;>
      cases reply : f.backendTag <;>
      simp [tag, reply, isOutcome] at fits ends_ execute ⊢

/-- Every expected reply but `ReadyForQuery`. -/
theorem reply_replies
    {g : Group Announcement}
    {f : Frame}
    (expected : g.expects f = true)
    (notReady : f.backendTag ≠ .readyForQuery) :
    Replies g (g.reply f) f.backendTag := by
  obtain ⟨r, rest, due, fits, -, -⟩ := due_cases expected notReady
  have front : g.due.head? = some r := by rw [due]; rfl
  have answers
      (tags :
        r.frame.frontendTag ≠ .execute ∧ r.frame.frontendTag ≠ .query) :
      ∀ x, g.due.head? = some x →
        x.frame.frontendTag ≠ .execute ∧ x.frame.frontendTag ≠ .query := by
    intro x isFront
    rw [front] at isFront
    rw [← Option.some.inj isFront]
    exact tags
  unfold Group.fits at fits
  unfold Group.reply
  cases reply : f.backendTag with
  | readyForQuery =>
      exact absurd reply notReady
  | commandComplete =>
      have concluded :=
        conclude_replies expected notReady (by simp [isOutcome, reply])
      rw [reply] at concluded
      exact concluded
  | portalSuspended =>
      have concluded :=
        conclude_replies expected notReady (by simp [isOutcome, reply])
      rw [reply] at concluded
      exact concluded
  | emptyQueryResponse =>
      have concluded :=
        conclude_replies expected notReady (by simp [isOutcome, reply])
      rw [reply] at concluded
      exact concluded
  | rowDescription =>
      simp only
      split
      · next describes =>
          refine finish_replies expected notReady (by simp [isOutcome])
            (answers ?_)
          have tag : r.frame.frontendTag = .describe := by
            simpa [Group.answering, due] using describes
          simp [tag]
      · exact same_replies (by simp [isOutcome]) rfl rfl rfl rfl
  | parseComplete =>
      refine finish_replies expected notReady (by simp [isOutcome])
        (answers ?_)
      cases tag : r.frame.frontendTag <;> simp [tag, reply] at fits ⊢
  | bindComplete =>
      refine finish_replies expected notReady (by simp [isOutcome])
        (answers ?_)
      cases tag : r.frame.frontendTag <;> simp [tag, reply] at fits ⊢
  | closeComplete =>
      refine finish_replies expected notReady (by simp [isOutcome])
        (answers ?_)
      cases tag : r.frame.frontendTag <;> simp [tag, reply] at fits ⊢
  | noData =>
      refine finish_replies expected notReady (by simp [isOutcome])
        (answers ?_)
      cases tag : r.frame.frontendTag <;> simp [tag, reply] at fits ⊢
  | _ =>
      exact same_replies (by simp [isOutcome]) rfl rfl rfl rfl

/-! ## Cycles under replies -/

/-- The fields of a cycle that speak about statements stay. -/
structure SameStatements (c d : Cycle) : Prop where
  id : d.id = c.id
  extended : d.extended = c.extended
  executions : d.executions = c.executions
  statements : d.statements = c.statements
  last : d.last = c.last
  statementIndex : d.statementIndex = c.statementIndex

theorem SameStatements.back
    {c d : Cycle}
    (keeps : SameStatements c d) :
    referencedStatement true d = referencedStatement true c := by
  simp [referencedStatement, keeps.statements, keeps.last]

/-- A change that has nothing to do with statements or with sealing. -/
structure KeepsStatements (c d : Cycle) : Prop
    extends SameStatements c d where
  sealed : d.sealed = c.sealed

theorem answer_keeps
    {f : Frame}
    (notComplete : f.backendTag ≠ .commandComplete)
    (notSuspended : f.backendTag ≠ .portalSuspended)
    (c : Cycle) :
    KeepsStatements c (answer f c) := by
  unfold answer
  cases tag : f.backendTag <;>
    simp [tag] at notComplete notSuspended <;>
    exact ⟨⟨rfl, rfl, rfl, rfl, rfl, rfl⟩, rfl⟩

/-- A cycle whose front statement has been taken off. -/
structure PopsStatement (advances : Nat) (c d : Cycle) : Prop where
  id : d.id = c.id
  extended : d.extended = c.extended
  sealed : d.sealed = c.sealed
  executions : d.executions = c.executions
  statements : d.statements = c.statements.tail
  last : d.last = referencedStatement false c
  statementIndex : d.statementIndex = c.statementIndex + advances

/-- Taking the front off leaves the statement at the back in place. -/
theorem PopsStatement.back
    {advances : Nat}
    {c d : Cycle}
    (pops : PopsStatement advances c d) :
    referencedStatement true d = referencedStatement true c :=
  referencedStatement_of_pop pops.statements pops.last

theorem answer_pops
    {f : Frame}
    {c : Cycle}
    (extended : c.extended = true)
    (ends_ :
      f.backendTag = .commandComplete ∨ f.backendTag = .portalSuspended) :
    PopsStatement (if f.backendTag = .commandComplete then 1 else 0) c
      (answer f c) := by
  have part := answer_clientPart f c
  refine ⟨part.id, part.extended, part.sealed, part.executions, ?_, ?_, ?_⟩
  · rw [answer_statements, if_pos ends_]
  · rw [answer_last, if_pos ends_]
  · rcases ends_ with complete | suspended
    · simp [answer, complete, completeCommand, popStatement_eq, extended]
    · simp [answer, suspended, suspendPortal, popStatement_eq]

/-! ## Replies keep the invariant -/

theorem SimplePart.reply
    {c : Cycle}
    {g h : Group Announcement}
    {f : Frame}
    (simple : SimplePart c g)
    (replies : Replies g h f.backendTag) :
    SimplePart (answer f c) h := by
  obtain ⟨isSimple, closed, r, st, waiting, query, announces, statements⟩ :=
    simple
  have part := answer_clientPart f c
  have noExecute : executes g = [] := by
    simp [executes, waiting, query]
  have waitingAfter : h.waiting = [r] := by
    rcases replies.effect with
        ⟨-, -, -, alone⟩ | ⟨-, -, x, -, ⟨-, found⟩ | ⟨-, -, same⟩⟩
    · exact alone r waiting query
    · rw [noExecute] at found
      cases found
    · rw [same, waiting]
  refine ⟨part.extended.trans isSimple, replies.closed.trans closed, r, st,
    waitingAfter, query, ?_, ?_⟩
  · rw [part.id]
    exact announces
  · rw [answer_statements, answer_last]
    split
    · right
      rcases statements with one | ⟨none, last⟩
      · simp [one, referencedStatement]
      · simp [none, last, referencedStatement]
    · exact statements

theorem ExtendedPart.keep
    {spoiled suppressed : Bool}
    {c d : Cycle}
    {g h : Group Announcement}
    (part : ExtendedPart spoiled suppressed c g)
    (keeps : KeepsStatements c d)
    (waiting : h.waiting.Sublist g.waiting)
    (sameExecutes : executes h = executes g)
    (outcomes : h.outcomes = g.outcomes)
    (closed : h.closed = g.closed) :
    ExtendedPart spoiled suppressed d h where
  extended := keeps.extended.trans part.extended
  noQuery := fun r member => part.noQuery r (waiting.subset member)
  sync := by
    intro r member isSync
    rw [closed, keeps.id, keeps.back]
    exact part.sync r (waiting.subset member) isSync
  attributed := by
    rw [outcomes, sameExecutes, keeps.statements, keeps.id, closed]
    exact part.attributed
  raises := by
    rw [sameExecutes]
    exact part.raises
  counted := by
    rw [outcomes, sameExecutes, keeps.statements, keeps.statementIndex,
      keeps.executions]
    exact part.counted

/-- The counts behind one more answered `Execute`. -/
theorem ExtendedPart.counted_next
    {spoiled suppressed : Bool}
    {c d : Cycle}
    {g h : Group Announcement}
    {tag : BackendTag}
    {r : Request Announcement}
    (part : ExtendedPart spoiled suppressed c g)
    (found : executes g = r :: executes h)
    (outcomes : h.outcomes = g.outcomes ++ [tag])
    (executions : d.executions = c.executions)
    (statementIndex :
      d.statementIndex =
        c.statementIndex + if tag = .commandComplete then 1 else 0)
    (enough : c.statements.length ≤ d.statements.length + 1) :
    suppressed = false →
    d.statementIndex = h.outcomes.count .commandComplete ∧
      d.executions = h.outcomes.length + (executes h).length ∧
      (executes h).length ≤ d.statements.length ∧
      (∀ x ∈ executes h, x.note.clean = true) ∧
      ∀ (i : Nat) (x : Request Announcement),
        (executes h)[i]? = some x →
        ∀ a ∈ x.note.raised, a.statementIndex = h.outcomes.length + i + 1 := by
  intro unsuppressed
  obtain ⟨index, total, length, clean, indices⟩ := part.counted unsuppressed
  rw [found] at total length clean indices
  simp only [List.length_cons] at total length
  refine ⟨?_, ?_, by omega, ?_, ?_⟩
  · rw [statementIndex, index, outcomes, List.count_append]
    by_cases complete : tag = .commandComplete
    · simp [complete]
    · simp [complete]
  · rw [executions, total, outcomes, List.length_append,
      List.length_singleton]
    omega
  · intro x member
    exact clean x (by simp [member])
  · intro i x isAt a member
    have index := indices (i + 1) x (by simpa using isAt) a member
    rw [outcomes, List.length_append, List.length_singleton]
    omega

/-- `EmptyQueryResponse` takes a request off, but no statement. -/
theorem ExtendedPart.empty
    {spoiled suppressed : Bool}
    {c d : Cycle}
    {g h : Group Announcement}
    {r : Request Announcement}
    (part : ExtendedPart spoiled suppressed c g)
    (keeps : KeepsStatements c d)
    (waiting : h.waiting.Sublist g.waiting)
    (found : executes g = r :: executes h)
    (outcomes : h.outcomes = g.outcomes ++ [.emptyQueryResponse])
    (closed : h.closed = g.closed) :
    ExtendedPart spoiled suppressed d h where
  extended := keeps.extended.trans part.extended
  noQuery := fun x member => part.noQuery x (waiting.subset member)
  sync := by
    intro x member isSync
    rw [closed, keeps.id, keeps.back]
    exact part.sync x (waiting.subset member) isSync
  attributed := by
    intro notEmpty
    rw [outcomes] at notEmpty
    simp at notEmpty
  raises := by
    intro x member
    exact part.raises x (by rw [found]; exact List.mem_cons_of_mem r member)
  counted :=
    part.counted_next found outcomes keeps.executions
      (by rw [keeps.statementIndex]; rfl)
      (by rw [keeps.statements]; omega)

/-- `CommandComplete` and `PortalSuspended` take a request and a statement. -/
theorem ExtendedPart.pop
    {spoiled suppressed : Bool}
    {c d : Cycle}
    {g h : Group Announcement}
    {r : Request Announcement}
    {tag : BackendTag}
    (part : ExtendedPart spoiled suppressed c g)
    (pops : PopsStatement (if tag = .commandComplete then 1 else 0) c d)
    (waiting : h.waiting.Sublist g.waiting)
    (found : executes g = r :: executes h)
    (outcomes : h.outcomes = g.outcomes ++ [tag])
    (closed : h.closed = g.closed) :
    ExtendedPart spoiled suppressed d h where
  extended := pops.extended.trans part.extended
  noQuery := fun x member => part.noQuery x (waiting.subset member)
  sync := by
    intro x member isSync
    rw [closed, pops.id, pops.back]
    exact part.sync x (waiting.subset member) isSync
  attributed := by
    intro notEmpty
    rw [outcomes, List.mem_append, not_or] at notEmpty
    obtain ⟨clean, unclean, statements, rest, split, marked, shape, announces,
      whole⟩ := part.attributed notEmpty.1
    rw [found] at split
    rw [pops.id, pops.statements, shape, closed]
    cases announces with
    | nil =>
        -- Only requests behind a suppressed `Execute` are left.
        rw [List.nil_append] at split
        refine ⟨[], executes h, [], rest.tail, rfl, ?_, by simp,
          List.Forall₂.nil, ?_⟩
        · intro x member
          exact marked x (by rw [← split]; exact List.mem_cons_of_mem r member)
        · intro isOpen unspoiled
          obtain ⟨none, -⟩ := whole isOpen unspoiled
          rw [none] at split
          cases split
    | @cons x st cleanRest statementsRest head tail =>
        rw [List.cons_append, List.cons.injEq] at split
        exact ⟨cleanRest, unclean, statementsRest, rest, split.2, marked,
          by simp, tail, whole⟩
  raises := by
    intro x member
    exact part.raises x (by rw [found]; exact List.mem_cons_of_mem r member)
  counted :=
    part.counted_next found outcomes pops.executions pops.statementIndex
      (by rw [pops.statements, List.length_tail]; omega)

/-- Every expected reply but `ReadyForQuery` keeps cycle and group together. -/
theorem Mirrors.reply
    {spoiled suppressed : Bool}
    {c : Cycle}
    {g : Group Announcement}
    {f : Frame}
    (mirrors : Mirrors spoiled suppressed c g)
    (expected : g.expects f = true)
    (notReady : f.backendTag ≠ .readyForQuery) :
    Mirrors spoiled suppressed (answer f c) (g.reply f) := by
  have replies := reply_replies expected notReady
  refine ⟨?_, replies.touched.trans mirrors.touched, ?_⟩
  · rw [(answer_clientPart f c).sealed, replies.closed]
    exact mirrors.sealed
  rcases mirrors.part with simple | part
  · exact Or.inl (simple.reply replies)
  · right
    rcases replies.effect with
        ⟨quiet, sameExecutes, outcomes, -⟩ |
          ⟨ends_, outcomes, r, front, ⟨-, found⟩ | ⟨query, -, -⟩⟩
    · have notComplete : f.backendTag ≠ .commandComplete := by
        intro complete
        simp [isOutcome, complete] at quiet
      have notSuspended : f.backendTag ≠ .portalSuspended := by
        intro suspended
        simp [isOutcome, suspended] at quiet
      exact part.keep (answer_keeps notComplete notSuspended c)
        replies.waiting sameExecutes outcomes replies.closed
    · by_cases empty : f.backendTag = .emptyQueryResponse
      · rw [empty] at outcomes
        exact part.empty (answer_keeps (by simp [empty]) (by simp [empty]) c)
          replies.waiting found outcomes replies.closed
      · have popping :
            f.backendTag = .commandComplete ∨
              f.backendTag = .portalSuspended := by
          simpa [isOutcome, empty] using ends_
        exact part.pop (answer_pops part.extended popping) replies.waiting
          found outcomes replies.closed
    · have member : r ∈ g.waiting :=
        (List.dropWhile_sublist _).subset (List.mem_of_mem_head? front)
      exact absurd query (part.noQuery r member)

/-! ## Cycles under client frames -/

/-- What the events of a client frame say about the cycle it worked on. -/
structure RaisedOn (d : Cycle) (events : List Event) : Prop where
  names : ∀ a ∈ events, Names d.id (referencedStatement true d) a
  index : ∀ a ∈ events, a.statementIndex = d.executions

/-- The events of a client frame describe the cycle at the back. -/
theorem raisedOn_back
    {sha256 : Bytes → String}
    {s : ConnectionState}
    {f : Frame}
    {d : Cycle}
    (back : (s.accept sha256 f).cycles.getLast? = some d) :
    RaisedOn d (s.frontend sha256 f).1 := by
  have located {a : Event} (member : a ∈ (s.frontend sha256 f).1) :
      a.coordinates = (s.accept sha256 f).coordinates true :=
    (mem_frontend member).2.1
  refine ⟨?_, ?_⟩
  · intro a member
    have same := located member
    refine ⟨?_, ?_, ?_⟩
    · simpa [Event.coordinates, ConnectionState.coordinates, referenced, back]
        using congrArg Coordinates.queryCycle same
    · simpa [Event.coordinates, ConnectionState.coordinates, referenced, back]
        using congrArg Coordinates.statementClass same
    · simpa [Event.coordinates, ConnectionState.coordinates, referenced, back]
        using congrArg Coordinates.sqlFingerprint same
  · intro a member
    simpa [Event.coordinates, ConnectionState.coordinates, referenced, back,
      referencedIndex] using congrArg Coordinates.statementIndex
        (located member)

/-- An `Execute` raises `frontend.execute`. -/
theorem raises_execute
    (sha256 : Bytes → String)
    (s : ConnectionState)
    {f : Frame}
    (execute : f.frontendTag = .execute) :
    ∃ a ∈ (s.frontend sha256 f).1, a.event = "frontend.execute" := by
  have names := frontend_names sha256 s f
  have member :
      "frontend.execute" ∈ (s.frontend sha256 f).1.map Event.event := by
    rw [names]
    simp [receive, execute]
  obtain ⟨a, raised, named⟩ := List.mem_map.mp member
  exact ⟨a, raised, named⟩

/-- A group with one more request that is no statement. -/
theorem executes_add_other
    {g : Group Announcement}
    {r : Request Announcement}
    (other : r.frame.frontendTag ≠ .execute) :
    executes (g.add r) = executes g := by
  simp [executes, Group.add, other]

theorem executes_add_execute
    {g : Group Announcement}
    {r : Request Announcement}
    (execute : r.frame.frontendTag = .execute) :
    executes (g.add r) = executes g ++ [r] := by
  simp [executes, Group.add, execute]

/-- A request that is no statement joins an open extended group. -/
theorem ExtendedPart.addOther
    {spoiled spoiled' suppressed : Bool}
    {c d : Cycle}
    {g : Group Announcement}
    (part : ExtendedPart spoiled suppressed c g)
    (isOpen : g.closed = false)
    (keeps : SameStatements c d)
    (r : Request Announcement)
    (notExecute : r.frame.frontendTag ≠ .execute)
    (notQuery : r.frame.frontendTag ≠ .query)
    (raised :
      r.frame.frontendTag = .sync →
      Announces d.id r (referencedStatement true d))
    (less :
      r.frame.frontendTag ≠ .sync → spoiled' = false → spoiled = false) :
    ExtendedPart spoiled' suppressed d (g.add r) where
  extended := keeps.extended.trans part.extended
  noQuery := by
    intro x member
    rcases List.mem_append.mp member with earlier | now
    · exact part.noQuery x earlier
    · rw [List.mem_singleton.mp now]
      exact notQuery
  sync := by
    intro x member isSync
    rcases List.mem_append.mp member with earlier | now
    · have closed := (part.sync x earlier isSync).1
      rw [isOpen] at closed
      cases closed
    · rw [List.mem_singleton.mp now] at isSync ⊢
      exact ⟨by simp [Group.add, isSync], raised isSync⟩
  attributed := by
    intro notEmpty
    obtain ⟨clean, unclean, statements, rest, split, marked, shape, announces,
      whole⟩ := part.attributed notEmpty
    rw [executes_add_other notExecute, keeps.statements, keeps.id]
    refine ⟨clean, unclean, statements, rest, split, marked, shape, announces,
      ?_⟩
    intro stillOpen unspoiled
    refine whole isOpen (less ?_ unspoiled)
    intro isSync
    simp [Group.add, isSync] at stillOpen
  raises := by
    rw [executes_add_other notExecute]
    exact part.raises
  counted := by
    rw [executes_add_other notExecute, keeps.statements, keeps.statementIndex,
      keeps.executions]
    exact part.counted

/-- A forwarded `Execute` joins an open extended group. -/
theorem ExtendedPart.addExecute
    {spoiled suppressed : Bool}
    {c d : Cycle}
    {g : Group Announcement}
    {r : Request Announcement}
    (part : ExtendedPart spoiled suppressed c g)
    (isOpen : g.closed = false)
    (grows : Grows c d)
    (st : Statement)
    (statements : d.statements = c.statements ++ [st])
    (executions : d.executions = c.executions + 1)
    (execute : r.frame.frontendTag = .execute)
    (raised : RaisedOn d r.note.raised)
    (isClean : r.note.clean = !spoiled)
    (implies : spoiled = true → suppressed = true)
    (raises : ∃ a ∈ r.note.raised, a.event = "frontend.execute") :
    ExtendedPart spoiled suppressed d (g.add r) where
  extended := grows.extended.trans part.extended
  noQuery := by
    intro x member
    rcases List.mem_append.mp member with earlier | now
    · exact part.noQuery x earlier
    · rw [List.mem_singleton.mp now, execute]
      decide
  sync := by
    intro x member isSync
    rcases List.mem_append.mp member with earlier | now
    · have closed := (part.sync x earlier isSync).1
      rw [isOpen] at closed
      cases closed
    · rw [List.mem_singleton.mp now, execute] at isSync
      cases isSync
  attributed := by
    intro notEmpty
    obtain ⟨clean, unclean, sts, rest, split, marked, shape, announces,
      whole⟩ := part.attributed notEmpty
    have back : referencedStatement true d = st := by
      simp [referencedStatement, statements]
    have isThis : Announces d.id r st := by
      intro a member
      rw [← back]
      exact raised.names a member
    rw [executes_add_execute execute, statements, split, shape, grows.id]
    rw [grows.id] at isThis
    cases spoiled with
    | false =>
        obtain ⟨noUnclean, noRest⟩ := whole isOpen rfl
        refine ⟨clean ++ [r], [], sts ++ [st], [], ?_, by simp, ?_, ?_,
          fun _ _ => ⟨rfl, rfl⟩⟩
        · simp [noUnclean]
        · simp [noRest]
        · exact List.rel_append announces
            (List.Forall₂.cons isThis List.Forall₂.nil)
    | true =>
        refine ⟨clean, unclean ++ [r], sts, rest ++ [st], ?_, ?_, ?_,
          announces, ?_⟩
        · simp
        · intro x member
          rcases List.mem_append.mp member with earlier | now
          · exact marked x earlier
          · rw [List.mem_singleton.mp now, isClean]
            rfl
        · simp
        · intro _ unspoiled
          cases unspoiled
  raises := by
    intro x member
    rw [executes_add_execute execute] at member
    rcases List.mem_append.mp member with earlier | now
    · exact part.raises x earlier
    · rw [List.mem_singleton.mp now]
      exact raises
  counted := by
    intro unsuppressed
    obtain ⟨index, total, length, clean, indices⟩ := part.counted unsuppressed
    have sameOutcomes : (g.add r).outcomes = g.outcomes := rfl
    rw [executes_add_execute execute, sameOutcomes, statements, executions,
      grows.statementIndex]
    refine ⟨index, ?_, ?_, ?_, ?_⟩
    · rw [total, List.length_append, List.length_singleton]
      omega
    · simpa using length
    · intro x member
      rcases List.mem_append.mp member with earlier | now
      · exact clean x earlier
      · rw [List.mem_singleton.mp now, isClean]
        cases isSpoiled : spoiled with
        | false =>
            rfl
        | true =>
            rw [implies isSpoiled] at unsuppressed
            cases unsuppressed
    · intro i x isAt a member
      by_cases inRange : i < (executes g).length
      · rw [List.getElem?_append_left inRange] at isAt
        exact indices i x isAt a member
      · rw [List.getElem?_append_right (Nat.le_of_not_lt inRange)] at isAt
        have isLast : i - (executes g).length = 0 := by
          by_contra further
          rw [List.getElem?_eq_none (by simp; omega)] at isAt
          cases isAt
        rw [isLast] at isAt
        have isThis : r = x := by simpa using isAt
        subst isThis
        rw [raised.index a member, executions, total]
        omega

/-- A suppressed `Execute` leaves a statement without a request. -/
theorem ExtendedPart.addDropped
    {spoiled suppressed : Bool}
    {c d : Cycle}
    {g : Group Announcement}
    (part : ExtendedPart spoiled suppressed c g)
    (isOpen : g.closed = false)
    (grows : Grows c d)
    (st : Statement)
    (statements : d.statements = c.statements ++ [st]) :
    ExtendedPart true true d { g with touched := true } where
  extended := grows.extended.trans part.extended
  noQuery := part.noQuery
  sync := by
    intro x member isSync
    have closed := (part.sync x member isSync).1
    rw [isOpen] at closed
    cases closed
  attributed := by
    intro notEmpty
    obtain ⟨clean, unclean, sts, rest, split, marked, shape, announces, -⟩ :=
      part.attributed notEmpty
    refine ⟨clean, unclean, sts, rest ++ [st], split, marked, ?_, ?_, ?_⟩
    · rw [statements, shape, List.append_assoc]
    · rw [grows.id]
      exact announces
    · intro _ unspoiled
      cases unspoiled
  raises := part.raises
  counted := by
    intro unsuppressed
    cases unsuppressed

/-! ## The open group and its cycle -/

theorem Mirrors.keep
    {spoiled suppressed : Bool}
    {c d : Cycle}
    {g : Group Announcement}
    (mirrors : Mirrors spoiled suppressed c g)
    (keeps : KeepsStatements c d) :
    Mirrors spoiled suppressed d g := by
  refine ⟨keeps.sealed.trans mirrors.sealed, mirrors.touched, ?_⟩
  rcases mirrors.part with simple | part
  · obtain ⟨isSimple, closed, r, st, waiting, query, announces, statements⟩ :=
      simple
    refine Or.inl ⟨keeps.extended.trans isSimple, closed, r, st, waiting,
      query, ?_, ?_⟩
    · rw [keeps.id]
      exact announces
    · rw [keeps.statements, keeps.last]
      exact statements
  · exact Or.inr (part.keep keeps (List.Sublist.refl _) rfl rfl rfl)

theorem markEpoch_keeps (c : Cycle) : KeepsStatements c (markEpoch c) :=
  ⟨⟨rfl, rfl, rfl, rfl, rfl, rfl⟩, rfl⟩

/-- A closed group no longer depends on what the client does. -/
theorem Mirrors.closed
    {spoiled spoiled' suppressed suppressed' : Bool}
    {c : Cycle}
    {g : Group Announcement}
    (mirrors : Mirrors spoiled suppressed c g)
    (closed : g.closed = true)
    (less : suppressed' = false → suppressed = false) :
    Mirrors spoiled' suppressed' c g := by
  refine ⟨mirrors.sealed, mirrors.touched, ?_⟩
  rcases mirrors.part with simple | part
  · exact Or.inl simple
  · refine Or.inr ⟨part.extended, part.noQuery, part.sync, ?_, part.raises,
      fun unsuppressed => part.counted (less unsuppressed)⟩
    intro notEmpty
    obtain ⟨clean, unclean, statements, rest, split, marked, shape, announces,
      -⟩ := part.attributed notEmpty
    refine ⟨clean, unclean, statements, rest, split, marked, shape, announces,
      ?_⟩
    intro isOpen
    rw [closed] at isOpen
    cases isOpen

/-- A new cycle for a group that has created none. -/
theorem ExtendedPart.fresh
    {g : Group Announcement}
    (blank : Blank g)
    (spoiled suppressed : Bool)
    (s : ConnectionState) :
    ExtendedPart spoiled suppressed (s.fresh true) g where
  extended := rfl
  noQuery := fun r member =>
    (tag_of_untouched (blank.untouched r member)).2.1
  sync := fun r member isSync =>
    absurd isSync (tag_of_untouched (blank.untouched r member)).2.2
  attributed := fun _ =>
    ⟨[], [], [], [], by rw [executes_of_blank blank]; rfl, by simp, rfl,
      List.Forall₂.nil, fun _ _ => ⟨rfl, rfl⟩⟩
  raises := by
    rw [executes_of_blank blank]
    simp
  counted := by
    intro _
    rw [executes_of_blank blank, blank.outcomes]
    exact ⟨rfl, rfl, Nat.zero_le _, by simp, by simp⟩

/-- The group that the client is sending, and what the observer has of it. -/
theorem Faithful.opened_cases
    {σ : Session}
    (faithful : Faithful σ) :
    ∃ earlier g,
      σ.server.opened = earlier ++ [g] ∧
        (∀ x ∈ earlier, x.closed = true) ∧ g.closed = false ∧
        (Blank g ∧
            List.Forall₂ (Mirrors σ.spoiled σ.suppressed) σ.state.cycles
              earlier ∨
          ∃ cycles c,
            σ.state.cycles = cycles ++ [c] ∧
              List.Forall₂ (Mirrors σ.spoiled σ.suppressed) cycles earlier ∧
              Mirrors σ.spoiled σ.suppressed c g) := by
  obtain ⟨matched, tail, groups, mirrors, tailShape⟩ := faithful.queue
  have closed := faithful.closed
  unfold Server.opened
  cases isOpen : σ.server.isOpen with
  | false =>
      refine ⟨σ.server.groups, {}, rfl, ?_, rfl, Or.inl ⟨?_, ?_⟩⟩
      · intro x member
        rcases eq_nil_or_concat σ.server.groups with
            empty | ⟨before, last, shape⟩
        · rw [empty] at member
          simp at member
        · have lastClosed : last.closed = true := by
            simpa [Server.isOpen, shape] using isOpen
          rw [shape] at member closed
          rcases List.mem_append.mp member with inBefore | isLast
          · exact closed x (by simpa using inBefore)
          · rw [List.mem_singleton.mp isLast]
            exact lastClosed
      · exact ⟨by simp, rfl, rfl, rfl⟩
      · rcases tailShape with rfl | ⟨g, rfl, blank⟩
        · rw [groups, List.append_nil]
          exact mirrors
        · have contradiction := blank.closed
          simp [Server.isOpen, groups, contradiction] at isOpen
  | true =>
      simp only [if_true]
      rcases tailShape with rfl | ⟨g, rfl, blank⟩
      · rw [List.append_nil] at groups
        rcases eq_nil_or_concat matched with rfl | ⟨earlier, g, rfl⟩
        · simp [Server.isOpen, groups] at isOpen
        · have unclosed : g.closed = false := by
            simpa [Server.isOpen, groups] using isOpen
          refine ⟨earlier, g, groups, ?_, unclosed, Or.inr ?_⟩
          · intro x member
            exact closed x (by simpa [groups] using member)
          · exact exists_concat_of_forall₂ mirrors
      · refine ⟨matched, g, groups, ?_, blank.closed, Or.inl ⟨blank, mirrors⟩⟩
        intro x member
        exact closed x (by simpa [groups] using member)

/-- Extended frames find or open the cycle of the client's group. -/
theorem Faithful.open_extended
    {σ : Session}
    (faithful : Faithful σ) :
    ∃ earlier g cycles c,
      σ.server.opened = earlier ++ [g] ∧ (∀ x ∈ earlier, x.closed = true) ∧
        g.closed = false ∧
        (σ.state.openCycle true).cycles = cycles ++ [c] ∧
        List.Forall₂ (Mirrors σ.spoiled σ.suppressed) cycles earlier ∧
        c.sealed = false ∧
        ExtendedPart σ.spoiled σ.suppressed c g := by
  obtain ⟨earlier, g, opened, closed, unclosed,
    ⟨blank, mirrors⟩ | ⟨cycles, c, shape, mirrors, last⟩⟩ :=
      faithful.opened_cases
  · have starts : σ.state.startsCycle true = true := by
      rcases eq_nil_or_concat σ.state.cycles with
          empty | ⟨before, c, shape⟩
      · simp [startsCycle, empty]
      · have isSealed : c.sealed = true := by
          obtain ⟨x, member, mirror⟩ :=
            exists_of_forall₂ mirrors.flip
              (show c ∈ σ.state.cycles by simp [shape])
          rw [mirror.sealed]
          exact closed x member
        simp [startsCycle, shape, isSealed]
    refine ⟨earlier, g, σ.state.cycles, σ.state.fresh true, opened, closed,
      unclosed, ?_, mirrors, rfl, ExtendedPart.fresh blank _ _ _⟩
    unfold openCycle
    rw [if_pos starts]
    rfl
  · have isOpen : c.sealed = false := last.sealed.trans unclosed
    have starts : ¬ σ.state.startsCycle true = true := by
      simp [startsCycle, shape, isOpen]
    refine ⟨earlier, g, cycles, c, opened, closed, unclosed, ?_, mirrors,
      isOpen, ?_⟩
    · unfold openCycle
      rw [if_neg starts]
      exact shape
    · rcases last.part with simple | part
      · have contradiction := simple.closed
        rw [unclosed] at contradiction
        cases contradiction
      · exact part

/-- The queue behind a client frame, up to the epoch mark. -/
theorem accept_shape
    (sha256 : Bytes → String)
    (s : ConnectionState)
    (f : Frame) :
    (touch f = none ∧ (s.accept sha256 f).cycles = s.cycles) ∨
      ∃ how update,
        touch f = some how ∧
          BackUpdate (s.noted sha256 f) how.seals update ∧
          List.Forall₂ KeepsStatements
            (modifyBack update (s.openCycle how.extended).cycles)
            (s.accept sha256 f).cycles := by
  have same (c : Cycle) : KeepsStatements c c :=
    ⟨⟨rfl, rfl, rfl, rfl, rfl, rfl⟩, rfl⟩
  rcases (receive_receives sha256 s f).queue with
      ⟨untouched, -, cycles, -⟩ | ⟨how, update, touches, updates, cycles, -⟩
  · refine Or.inl ⟨untouched, ?_⟩
    have tags := tag_of_untouched untouched
    have keeps : (s.receive sha256 f).1.allocatesEpoch f = false := by
      simp [allocatesEpoch, tags.1, tags.2.1]
    simp only [accept, allocateEpoch, keeps, Bool.false_eq_true, if_false]
    exact cycles
  · refine Or.inr ⟨how, update, touches, updates, ?_⟩
    rw [← cycles]
    unfold accept
    rcases allocateEpoch_cycles (s.receive sha256 f).1 f with kept | marks
    · rw [kept]
      exact List.forall₂_same.mpr fun c _ => same c
    · rw [marks]
      exact forall₂_modifyFront KeepsStatements same markEpoch_keeps _

/-- The events of a client frame describe the cycle it updated. -/
theorem raisedOn_of_shape
    {sha256 : Bytes → String}
    {s : ConnectionState}
    {f : Frame}
    {earlier : List Cycle}
    {c : Cycle}
    (shape :
      List.Forall₂ KeepsStatements (earlier ++ [c])
        (s.accept sha256 f).cycles) :
    RaisedOn c (s.frontend sha256 f).1 := by
  obtain ⟨after, d, isAfter, -, keeps⟩ := exists_concat_of_forall₂ shape.flip
  have raised : RaisedOn d (s.frontend sha256 f).1 :=
    raisedOn_back (by rw [isAfter]; simp)
  refine ⟨?_, ?_⟩
  · intro a member
    rw [← keeps.id, ← keeps.back]
    exact raised.names a member
  · intro a member
    rw [← keeps.executions]
    exact raised.index a member

/-- Cycles that keep their statements keep their groups. -/
theorem mirrors_of_keeps
    {spoiled suppressed : Bool}
    {before after : List Cycle}
    {groups : List (Group Announcement)}
    (keeps : List.Forall₂ KeepsStatements before after)
    (mirrors : List.Forall₂ (Mirrors spoiled suppressed) before groups) :
    List.Forall₂ (Mirrors spoiled suppressed) after groups := by
  induction keeps generalizing groups with
  | nil =>
      exact mirrors
  | cons head _ inductionHypothesis =>
      cases mirrors with
      | cons mirror rest =>
          exact .cons (mirror.keep head) (inductionHypothesis rest)

/-- A group sequence whose last group is being sent. -/
theorem Faithful.of_concat
    {σ : Session}
    {earlier : List (Group Announcement)}
    {g : Group Announcement}
    (groups : σ.server.groups = earlier ++ [g])
    (closed : ∀ x ∈ earlier, x.closed = true)
    (queue :
      List.Forall₂ (Mirrors σ.spoiled σ.suppressed) σ.state.cycles
          (earlier ++ [g]) ∨
        Blank g ∧
          List.Forall₂ (Mirrors σ.spoiled σ.suppressed) σ.state.cycles earlier)
    (inGroup : σ.inGroup = !g.closed)
    (spoiled : σ.spoiled = true → σ.suppressed = true) :
    Faithful σ where
  queue := by
    rcases queue with mirrors | ⟨blank, mirrors⟩
    · exact ⟨earlier ++ [g], [], by simp [groups], mirrors, Or.inl rfl⟩
    · exact ⟨earlier, [g], groups, mirrors, Or.inr ⟨g, rfl, blank⟩⟩
  closed := by
    rw [groups]
    simpa using closed
  inGroup := by
    rw [inGroup]
    simp [Server.isOpen, groups]
  spoiled := spoiled

/-! ## Turns keep the invariant -/

theorem mirrors_closed
    {spoiled spoiled' suppressed suppressed' : Bool}
    {cycles : List Cycle}
    {groups : List (Group Announcement)}
    (mirrors : List.Forall₂ (Mirrors spoiled suppressed) cycles groups)
    (closed : ∀ g ∈ groups, g.closed = true)
    (less : suppressed' = false → suppressed = false) :
    List.Forall₂ (Mirrors spoiled' suppressed') cycles groups := by
  induction mirrors with
  | nil =>
      exact .nil
  | cons head _ inductionHypothesis =>
      exact .cons (head.closed (closed _ (by simp)) less)
        (inductionHypothesis fun g member => closed g (by simp [member]))

/-- What an extended frame does to the cycle and the group it works on. -/
theorem extended_add
    {sha256 : Bytes → String}
    {σ : Session}
    {f : Frame}
    {g : Group Announcement}
    {cycles : List Cycle}
    {c : Cycle}
    {seals : Bool}
    {update : Cycle → Cycle}
    (implies : σ.spoiled = true → σ.suppressed = true)
    (isOpen : g.closed = false)
    (unsealed : c.sealed = false)
    (part : ExtendedPart σ.spoiled σ.suppressed c g)
    (touches : touch f = some ⟨true, seals⟩)
    (updates : BackUpdate (σ.state.noted sha256 f) seals update)
    (shape :
      List.Forall₂ KeepsStatements (cycles ++ [update c])
        (σ.state.accept sha256 f).cycles) :
    Mirrors (σ.spoiled && !isTerminator f.frontendTag) σ.suppressed (update c)
      (g.add ⟨f, ⟨(σ.state.frontend sha256 f).1, !σ.spoiled⟩⟩) := by
  have raised := raisedOn_of_shape shape
  have grows := updates.grows c
  have notQuery : f.frontendTag ≠ .query := by
    intro query
    simp [touch, query] at touches
  have sealsSync : seals = (f.frontendTag == .sync) := seals_of_touch touches
  have executeRaises (execute : f.frontendTag = .execute) :
      ∃ a ∈ (σ.state.frontend sha256 f).1, a.event = "frontend.execute" :=
    raises_execute sha256 σ.state execute
  generalize (σ.state.frontend sha256 f).1 = events
    at raised executeRaises ⊢
  refine ⟨?_, ?_, Or.inr ?_⟩
  · rw [updates.sealed, unsealed, sealsSync]
    simp [Group.add, isOpen, notQuery]
  · simp [Group.add, touches]
  by_cases execute : f.frontendTag = .execute
  · have noted : σ.state.noted sha256 f = [σ.state.resolve sha256 f] := by
      simp [ConnectionState.noted, execute]
    have sameSpoiled :
        (σ.spoiled && !isTerminator f.frontendTag) = σ.spoiled := by
      simp [isTerminator, execute]
    rw [sameSpoiled]
    refine part.addExecute isOpen grows (σ.state.resolve sha256 f) ?_ ?_
      execute raised rfl implies (executeRaises execute)
    · rw [updates.statements, noted]
    · rw [updates.executions, noted]
      rfl
  · have noted : σ.state.noted sha256 f = [] := by
      simp [ConnectionState.noted, execute, notQuery]
    have keeps : SameStatements c (update c) := by
      refine ⟨grows.id, grows.extended, ?_, ?_, grows.last,
        grows.statementIndex⟩
      · have executions := updates.executions c
        rw [noted] at executions
        exact executions
      · have statements := updates.statements c
        rw [noted, List.append_nil] at statements
        exact statements
    refine part.addOther isOpen keeps _ execute notQuery
      (fun _ => raised.names) ?_
    intro notSync unspoiled
    simpa [isTerminator, notSync, notQuery] using unspoiled

/-- A forwarded frame that creates no cycle. -/
theorem Faithful.client_untouched
    {sha256 : Bytes → String}
    {σ : Session}
    {f : Frame}
    (faithful : Faithful σ)
    (untouched : touch f = none)
    (cycles : (σ.state.accept sha256 f).cycles = σ.state.cycles) :
    Faithful (σ.step sha256 (.client f)) := by
  have tags := tag_of_untouched untouched
  have notTerminator : isTerminator f.frontendTag = false := by
    simp [isTerminator, tags.2.1, tags.2.2]
  have state :
      (σ.step sha256 (.client f)).state.cycles = σ.state.cycles := by
    simp only [step]
    rw [frontend_state, recount_cycles]
    exact cycles
  have sameSpoiled :
      (σ.step sha256 (.client f)).spoiled = σ.spoiled := by
    simp [step, notTerminator]
  obtain ⟨earlier, g, opened, closed, unclosed, part⟩ := faithful.opened_cases
  generalize requests :
    (⟨f, ⟨(σ.state.frontend sha256 f).1, !σ.spoiled⟩⟩ :
      Request Announcement) = r
  have sameFrame : r.frame = f := by rw [← requests]
  have groups :
      (σ.step sha256 (.client f)).server.groups = earlier ++ [g.add r] := by
    simp [step, Server.send, opened, requests]
  have stillOpen : (g.add r).closed = false := by
    simp [Group.add, unclosed, sameFrame, tags.2.1, tags.2.2]
  refine Faithful.of_concat groups closed ?_ ?_ ?_
  · rw [state, sameSpoiled]
    rcases part with ⟨blank, mirrors⟩ | ⟨before, c, shape, mirrors, last⟩
    · refine Or.inr ⟨⟨?_, blank.outcomes, ?_, stillOpen⟩, mirrors⟩
      · intro x member
        rcases List.mem_append.mp member with old | now
        · exact blank.untouched x old
        · rw [List.mem_singleton.mp now, sameFrame]
          exact untouched
      · simp [Group.add, blank.touched, sameFrame, untouched]
    · left
      rw [shape]
      refine List.rel_append mirrors (.cons ⟨?_, ?_, ?_⟩ .nil)
      · rw [last.sealed, unclosed, stillOpen]
      · simp [Group.add, last.touched]
      · rcases last.part with simple | part
        · have contradiction := simple.closed
          rw [unclosed] at contradiction
          cases contradiction
        · right
          refine part.addOther unclosed ⟨rfl, rfl, rfl, rfl, rfl, rfl⟩ r
            (by rw [sameFrame]; exact tags.1)
            (by rw [sameFrame]; exact tags.2.1) ?_
            (fun _ unspoiled => unspoiled)
          intro isSync
          rw [sameFrame] at isSync
          exact absurd isSync tags.2.2
  · rw [stillOpen]
    simp [step, notTerminator]
  · intro isSpoiled
    rw [sameSpoiled] at isSpoiled
    exact faithful.spoiled isSpoiled

/-- A forwarded extended frame that works on a cycle. -/
theorem Faithful.client_extended
    {sha256 : Bytes → String}
    {σ : Session}
    {f : Frame}
    {seals : Bool}
    {update : Cycle → Cycle}
    (faithful : Faithful σ)
    (touches : touch f = some ⟨true, seals⟩)
    (updates : BackUpdate (σ.state.noted sha256 f) seals update)
    (shape :
      List.Forall₂ KeepsStatements
        (modifyBack update (σ.state.openCycle true).cycles)
        (σ.state.accept sha256 f).cycles) :
    Faithful (σ.step sha256 (.client f)) := by
  obtain ⟨earlier, g, cycles, c, opened, closed, unclosed, queue, mirrors,
    unsealed, part⟩ := faithful.open_extended
  rw [queue, modifyBack_concat] at shape
  have mirror :=
    extended_add faithful.spoiled unclosed unsealed part touches updates shape
  have notQuery : f.frontendTag ≠ .query := by
    intro query
    simp [touch, query] at touches
  have groups :
      (σ.step sha256 (.client f)).server.groups =
        earlier ++
          [g.add ⟨f, ⟨(σ.state.frontend sha256 f).1, !σ.spoiled⟩⟩] := by
    simp [step, Server.send, opened]
  refine Faithful.of_concat groups closed (Or.inl ?_) ?_ ?_
  · simp only [step]
    rw [frontend_state, recount_cycles]
    refine mirrors_of_keeps shape ?_
    exact List.rel_append
      (mirrors_closed mirrors closed fun unsuppressed => unsuppressed)
      (.cons mirror .nil)
  · have flags :
        isTerminator f.frontendTag =
          (f.frontendTag == .sync || f.frontendTag == .query) := by
      cases f.frontendTag <;> rfl
    simp [step, Group.add, unclosed, flags]
  · intro isSpoiled
    simp only [step, Bool.and_eq_true] at isSpoiled
    exact faithful.spoiled isSpoiled.1

/-- A forwarded `Query` between groups. -/
theorem Faithful.client_query
    {sha256 : Bytes → String}
    {σ : Session}
    {f : Frame}
    {update : Cycle → Cycle}
    (faithful : Faithful σ)
    (query : f.frontendTag = .query)
    (between : σ.inGroup = false)
    (updates : BackUpdate (σ.state.noted sha256 f) false update)
    (shape :
      List.Forall₂ KeepsStatements
        (modifyBack update (σ.state.openCycle false).cycles)
        (σ.state.accept sha256 f).cycles) :
    Faithful (σ.step sha256 (.client f)) := by
  have notOpen : σ.server.isOpen = false := by
    rw [← faithful.inGroup]
    exact between
  obtain ⟨earlier, g, opened, closed, -,
    ⟨-, mirrors⟩ | ⟨cycles, c, queue, mirrors, last⟩⟩ :=
      faithful.opened_cases
  · have queue :
        (σ.state.openCycle false).cycles =
          σ.state.cycles ++ [σ.state.fresh false] := by
      simp [openCycle, startsCycle, fresh]
    rw [queue, modifyBack_concat] at shape
    have raised := raisedOn_of_shape shape
    have grows := updates.grows (σ.state.fresh false)
    have isNew : σ.server.groups = earlier ∧ g = {} := by
      simp only [Server.opened, notOpen, Bool.false_eq_true, if_false] at opened
      have parts := List.append_inj' opened rfl
      exact ⟨parts.1, by simpa using parts.2.symm⟩
    obtain ⟨sameGroups, rfl⟩ := isNew
    have statements :
        (update (σ.state.fresh false)).statements =
          [σ.state.resolve sha256 f] := by
      rw [updates.statements]
      simp [ConnectionState.noted, query, fresh]
    have groups :
        (σ.step sha256 (.client f)).server.groups =
          earlier ++
            [Group.add {}
              ⟨f, ⟨(σ.state.frontend sha256 f).1, !σ.spoiled⟩⟩] := by
      simp [step, Server.send, opened]
    generalize (σ.state.frontend sha256 f).1 = events at raised groups
    refine Faithful.of_concat groups closed (Or.inl ?_) ?_ ?_
    · simp only [step]
      rw [frontend_state, recount_cycles]
      refine mirrors_of_keeps shape (List.rel_append
        (mirrors_closed mirrors closed fun unsuppressed => unsuppressed)
        (.cons ⟨?_, ?_, Or.inl ⟨?_, ?_, ?_⟩⟩ .nil))
      · rw [updates.sealed]
        simp [fresh, Group.add, query]
      · simp [Group.add, touch, query]
      · rw [grows.extended]
        rfl
      · simp [Group.add, query]
      · refine ⟨_, σ.state.resolve sha256 f, by simp [Group.add]; rfl, query,
          ?_, Or.inl statements⟩
        intro a member
        have names := raised.names a member
        simpa [referencedStatement, statements] using names
    · simp [step, Group.add, isTerminator, query]
    · intro isSpoiled
      simp only [step, Bool.and_eq_true] at isSpoiled
      exact faithful.spoiled isSpoiled.1
  · -- The client is inside a group, which `Query` does not allow.
    have contradiction : σ.server.isOpen = true := by
      have unsealed := last.sealed
      by_contra isOpen
      simp only [Server.opened, isOpen, if_false] at opened
      have parts := List.append_inj' opened rfl
      have blank : g = {} := by simpa using parts.2.symm
      have touched := last.touched
      rw [blank] at touched
      cases touched
    rw [notOpen] at contradiction
    cases contradiction

/-- Every forwarded frame keeps the invariant. -/
theorem Faithful.client
    {sha256 : Bytes → String}
    {σ : Session}
    {f : Frame}
    (faithful : Faithful σ)
    (permitted : σ.sends f = true) :
    Faithful (σ.step sha256 (.client f)) := by
  rcases accept_shape sha256 σ.state f with
      ⟨untouched, cycles⟩ | ⟨⟨extended, seals⟩, update, touches, updates, shape⟩
  · exact faithful.client_untouched untouched cycles
  · cases extended with
    | true =>
        exact faithful.client_extended touches updates shape
    | false =>
        have query : f.frontendTag = .query := by
          unfold touch at touches
          cases tag : f.frontendTag <;> simp [tag] at touches ⊢
        have unsealing : seals = false := by
          have isSync := seals_of_touch touches
          rw [query] at isSync
          exact isSync
        have between : σ.inGroup = false := by
          simpa [sends, query] using permitted
        rw [unsealing] at updates
        exact faithful.client_query query between updates shape

/-- A suppressed `Execute` keeps the invariant. -/
theorem Faithful.dropped
    {sha256 : Bytes → String}
    {σ : Session}
    {f : Frame}
    (faithful : Faithful σ)
    (execute : f.frontendTag = .execute) :
    Faithful (σ.step sha256 (.dropped f)) := by
  have touches : touch f = some ⟨true, false⟩ := by simp [touch, execute]
  rcases accept_shape sha256 σ.state f with
      ⟨untouched, -⟩ | ⟨how, update, touched, updates, shape⟩
  · rw [touches] at untouched
    cases untouched
  · rw [touches] at touched
    cases touched
    obtain ⟨earlier, g, cycles, c, opened, closed, unclosed, queue, mirrors,
      unsealed, part⟩ := faithful.open_extended
    rw [queue, modifyBack_concat] at shape
    have noted : σ.state.noted sha256 f = [σ.state.resolve sha256 f] := by
      simp [ConnectionState.noted, execute]
    have groups :
        (σ.step sha256 (.dropped f)).server.groups =
          earlier ++ [{ g with touched := true }] := by
      simp [step, execute, Server.drop, opened]
    have isSpoiled : (σ.step sha256 (.dropped f)).spoiled = true := by
      simp [step, isTerminator, execute]
    have isSuppressed : (σ.step sha256 (.dropped f)).suppressed = true := rfl
    refine Faithful.of_concat groups closed (Or.inl ?_) ?_
      (fun _ => isSuppressed)
    · rw [isSpoiled, isSuppressed]
      simp only [step]
      rw [frontend_state, recount_cycles]
      refine mirrors_of_keeps shape (List.rel_append
        (mirrors_closed mirrors closed fun unsuppressed => by
          cases unsuppressed)
        (.cons ⟨?_, rfl, Or.inr ?_⟩ .nil))
      · rw [updates.sealed, unsealed, unclosed]
        rfl
      · refine part.addDropped unclosed (updates.grows c)
          (σ.state.resolve sha256 f) ?_
        rw [updates.statements, noted]
    · simp [step, isTerminator, execute, unclosed]

/-- Replies never close or reopen a group. -/
theorem reply_closed (g : Group Announcement) (f : Frame) :
    (g.reply f).closed = g.closed := by
  unfold Group.reply Group.conclude Group.finish
  cases f.backendTag <;> simp only <;> try split
  all_goals rfl

/-- A reply to a group without a cycle creates none. -/
theorem Blank.reply
    {g : Group Announcement}
    {f : Frame}
    (blank : Blank g)
    (expected : g.expects f = true)
    (notReady : f.backendTag ≠ .readyForQuery) :
    Blank (g.reply f) := by
  have replies := reply_replies expected notReady
  refine ⟨?_, ?_, replies.touched.trans blank.touched,
    replies.closed.trans blank.closed⟩
  · intro r member
    exact blank.untouched r (replies.waiting.subset member)
  · rcases replies.effect with
        ⟨-, -, outcomes, -⟩ | ⟨-, -, r, front, statement⟩
    · rw [outcomes]
      exact blank.outcomes
    · have member : r ∈ g.waiting :=
        (List.dropWhile_sublist _).subset (List.mem_of_mem_head? front)
      have tags := tag_of_untouched (blank.untouched r member)
      rcases statement with ⟨execute, -⟩ | ⟨query, -⟩
      · exact absurd execute tags.1
      · exact absurd query tags.2.1

/-- The group that a `ReadyForQuery` ends is complete. -/
theorem terminator_of_ready
    {g : Group Announcement}
    {f : Frame}
    (expected : g.expects f = true)
    (ready : f.backendTag = .readyForQuery) :
    (readyStatus f).isSome = true ∧
      ∃ r ∈ g.waiting,
        g.due.head? = some r ∧
          (r.frame.frontendTag = .sync ∨ r.frame.frontendTag = .query) := by
  unfold Group.expects at expected
  cases front : g.due.head? with
  | none =>
      simp [front] at expected
  | some r =>
      have member : r ∈ g.waiting :=
        (List.dropWhile_sublist _).subset (List.mem_of_mem_head? front)
      simp only [front, Option.any_some] at expected
      unfold Group.fits at expected
      cases tag : r.frame.frontendTag <;>
        simp [tag, ready] at expected
      · exact ⟨expected, r, member, rfl, Or.inl tag⟩
      · exact ⟨expected.1, r, member, rfl, Or.inr tag⟩

/-- The closing request closes its group. -/
theorem Mirrors.closed_of_terminator
    {spoiled suppressed : Bool}
    {c : Cycle}
    {g : Group Announcement}
    (mirrors : Mirrors spoiled suppressed c g)
    {r : Request Announcement}
    (member : r ∈ g.waiting)
    (terminates :
      r.frame.frontendTag = .sync ∨ r.frame.frontendTag = .query) :
    g.closed = true := by
  rcases mirrors.part with simple | part
  · exact simple.closed
  · rcases terminates with isSync | isQuery
    · exact (part.sync r member isSync).1
    · exact absurd isQuery (part.noQuery r member)

/-- The front group of a session and the cycle that belongs to it. -/
theorem Faithful.front_cases
    {σ : Session}
    (faithful : Faithful σ)
    {g : Group Announcement}
    (front : σ.server.groups.head? = some g) :
    (Blank g ∧ σ.state.cycles = [] ∧ σ.server.groups = [g]) ∨
      ∃ c cycles matched tail,
        σ.state.cycles = c :: cycles ∧
          σ.server.groups = (g :: matched) ++ tail ∧
          Mirrors σ.spoiled σ.suppressed c g ∧
          List.Forall₂ (Mirrors σ.spoiled σ.suppressed) cycles matched ∧
          (tail = [] ∨ ∃ x, tail = [x] ∧ Blank x) := by
  obtain ⟨matched, tail, groups, mirrors, tailShape⟩ := faithful.queue
  generalize σ.state.cycles = queue at mirrors ⊢
  cases mirrors with
  | nil =>
      left
      rcases tailShape with rfl | ⟨x, rfl, blank⟩
      · simp [groups] at front
      · have isFront : x = g := by simpa [groups] using front
        subst isFront
        exact ⟨blank, rfl, groups⟩
  | @cons c x cycles rest head others =>
      right
      have isFront : x = g := by simpa [groups] using front
      subst isFront
      exact ⟨c, cycles, rest, tail, rfl, groups, head, others, tailShape⟩

/-- A `ReadyForQuery` ends the front group and its cycle. -/
theorem Faithful.server_ready
    {sha256 : Bytes → String}
    {σ : Session}
    {f : Frame}
    {g : Group Announcement}
    (faithful : Faithful σ)
    (front : σ.server.groups.head? = some g)
    (expected : g.expects f = true)
    (ready : f.backendTag = .readyForQuery) :
    Faithful (σ.step sha256 (.server f)) := by
  obtain ⟨known, r, member, -, terminates⟩ := terminator_of_ready expected ready
  obtain ⟨status, isStatus⟩ := Option.isSome_iff_exists.mp known
  have groupsAfter :
      (σ.step sha256 (.server f)).server.groups = σ.server.groups.tail := by
    simp [step, Server.reply, Server.isAsync, ready]
  have cyclesAfter :
      (σ.step sha256 (.server f)).state.cycles = σ.state.cycles.tail := by
    simp only [step]
    rw [backend_state, recount_cycles, advance_cycles_of_ready _ isStatus]
  rcases faithful.front_cases front with
      ⟨blank, -, -⟩ | ⟨c, cycles, matched, tail, queue, groups, mirror,
        mirrors, tailShape⟩
  · have tags := tag_of_untouched (blank.untouched r member)
    rcases terminates with isSync | isQuery
    · exact absurd isSync tags.2.2
    · exact absurd isQuery tags.2.1
  · have closed := mirror.closed_of_terminator member terminates
    refine ⟨⟨matched, tail, ?_, ?_, tailShape⟩, ?_, ?_, faithful.spoiled⟩
    · rw [groupsAfter, groups]
      rfl
    · rw [cyclesAfter, queue]
      exact mirrors
    · intro x inRest
      refine faithful.closed x ?_
      rw [groupsAfter, groups] at inRest
      rw [groups, List.cons_append]
      cases shape : matched ++ tail with
      | nil =>
          simp [shape] at inRest
      | cons y ys =>
          simp only [List.cons_append, List.tail_cons, shape] at inRest
          simp only [List.dropLast_cons_cons]
          exact List.mem_cons_of_mem g inRest
    · have same :
          (σ.step sha256 (.server f)).inGroup = σ.server.isOpen :=
        faithful.inGroup
      rw [same]
      unfold Server.isOpen
      rw [groupsAfter, groups, List.cons_append, List.tail_cons]
      cases shape : matched ++ tail with
      | nil =>
          simp [closed]
      | cons y ys =>
          simp

/-- Any other reply works on the front group and its cycle. -/
theorem Faithful.server_other
    {sha256 : Bytes → String}
    {σ : Session}
    {f : Frame}
    {g : Group Announcement}
    (faithful : Faithful σ)
    (front : σ.server.groups.head? = some g)
    (expected : g.expects f = true)
    (notAsync : Server.isAsync f.backendTag = false)
    (notReady : f.backendTag ≠ .readyForQuery) :
    Faithful (σ.step sha256 (.server f)) := by
  have stays : readyStatus f = none := by simp [readyStatus, notReady]
  have groupsAfter :
      (σ.step sha256 (.server f)).server.groups =
        modifyFront (fun x => x.reply f) σ.server.groups := by
    simp [step, Server.reply, notAsync, notReady]
  have cyclesAfter :
      (σ.step sha256 (.server f)).state.cycles =
        modifyFront (answer f) σ.state.cycles := by
    simp only [step]
    rw [backend_state, recount_cycles, advance_cycles_of_open _ stays]
  have sameClosed :
      (σ.step sha256 (.server f)).server.groups.map Group.closed =
        σ.server.groups.map Group.closed := by
    rw [groupsAfter]
    exact map_modifyFront (fun x => reply_closed x f) _
  refine ⟨?_, ?_, ?_, faithful.spoiled⟩
  · rcases faithful.front_cases front with
        ⟨blank, empty, groups⟩ | ⟨c, cycles, matched, tail, queue, groups,
          mirror, mirrors, tailShape⟩
    · refine ⟨[], [g.reply f], ?_, ?_,
        Or.inr ⟨_, rfl, blank.reply expected notReady⟩⟩
      · rw [groupsAfter, groups]
        rfl
      · rw [cyclesAfter, empty]
        exact .nil
    · refine ⟨g.reply f :: matched, tail, ?_, ?_, tailShape⟩
      · rw [groupsAfter, groups]
        rfl
      · rw [cyclesAfter, queue]
        exact .cons (mirror.reply expected notReady) mirrors
  · intro x member
    have isClosed :
        x.closed ∈
          ((σ.step sha256 (.server f)).server.groups.map
            Group.closed).dropLast := by
      rw [← List.map_dropLast]
      exact List.mem_map_of_mem member
    rw [sameClosed, ← List.map_dropLast] at isClosed
    obtain ⟨y, inBefore, same⟩ := List.mem_map.mp isClosed
    rw [← same]
    exact faithful.closed y inBefore
  · have same : (σ.step sha256 (.server f)).inGroup = σ.server.isOpen :=
      faithful.inGroup
    have isOpen_eq (s : Server Announcement) :
        s.isOpen = !((s.groups.map Group.closed).getLast?.getD true) := by
      unfold Server.isOpen
      rw [List.getLast?_map]
      cases s.groups.getLast? <;> simp
    rw [same, isOpen_eq, isOpen_eq, sameClosed]

/-- Frames that may come at any time say nothing about statements. -/
theorem Faithful.server_async
    {sha256 : Bytes → String}
    {σ : Session}
    {f : Frame}
    (faithful : Faithful σ)
    (async : Server.isAsync f.backendTag = true) :
    Faithful (σ.step sha256 (.server f)) := by
  have tags :
      f.backendTag ≠ .commandComplete ∧ f.backendTag ≠ .portalSuspended ∧
        f.backendTag ≠ .readyForQuery := by
    refine ⟨?_, ?_, ?_⟩ <;> intro tag <;>
      simp [Server.isAsync, tag] at async
  have stays : readyStatus f = none := by simp [readyStatus, tags.2.2]
  have sameServer : (σ.step sha256 (.server f)).server = σ.server := by
    simp [step, Server.reply, async]
  have keeps :
      List.Forall₂ KeepsStatements σ.state.cycles
        (σ.step sha256 (.server f)).state.cycles := by
    simp only [step]
    rw [backend_state, recount_cycles, advance_cycles_of_open _ stays]
    exact forall₂_modifyFront KeepsStatements
      (fun _ => ⟨⟨rfl, rfl, rfl, rfl, rfl, rfl⟩, rfl⟩)
      (answer_keeps tags.1 tags.2.1) _
  obtain ⟨matched, tail, groups, mirrors, tailShape⟩ := faithful.queue
  refine ⟨⟨matched, tail, ?_, mirrors_of_keeps keeps mirrors, tailShape⟩,
    ?_, ?_, faithful.spoiled⟩
  · rw [sameServer]
    exact groups
  · rw [sameServer]
    exact faithful.closed
  · rw [sameServer]
    exact faithful.inGroup

/-- Only `Execute` frames are suppressed. -/
def KeepsGroups : Turn → Prop
  | .dropped f => f.frontendTag = .execute
  | _ => True

instance decidableKeepsGroups : (turn : Turn) → Decidable (KeepsGroups turn)
  | .dropped f => inferInstanceAs (Decidable (f.frontendTag = .execute))
  | .client _ => inferInstanceAs (Decidable True)
  | .forwarded => inferInstanceAs (Decidable True)
  | .server _ => inferInstanceAs (Decidable True)

/-- Every permitted turn that suppresses no more than an `Execute`. -/
theorem Faithful.step
    {sha256 : Bytes → String}
    {σ : Session}
    {turn : Turn}
    (faithful : Faithful σ)
    (permitted : σ.permits turn)
    (keepsGroups : KeepsGroups turn) :
    Faithful (σ.step sha256 turn) := by
  cases turn with
  | client f =>
      exact faithful.client permitted
  | dropped f =>
      exact faithful.dropped keepsGroups
  | forwarded =>
      exact ⟨faithful.queue, faithful.closed, faithful.inGroup,
        faithful.spoiled⟩
  | server f =>
      cases async : Server.isAsync f.backendTag with
      | true =>
          exact faithful.server_async async
      | false =>
          have expects : σ.server.expects f = true := permitted
          simp only [Server.expects, async, Bool.false_or, Bool.and_eq_true]
            at expects
          cases front : σ.server.groups.head? with
          | none =>
              simp [front] at expects
          | some g =>
              have expected : g.expects f = true := by
                simpa [front] using expects.1
              by_cases ready : f.backendTag = .readyForQuery
              · exact faithful.server_ready front expected ready
              · exact faithful.server_other front expected async ready

theorem faithful_start
    (sha256 : Bytes → String)
    (id : Nat)
    (startup : StartupMetadata)
    (greeting : List Frame) :
    Faithful (start sha256 id startup greeting) := by
  have empty := (greeted_empty sha256 id startup greeting).1
  refine ⟨⟨[], [], rfl, ?_, Or.inl rfl⟩, by simp [start], rfl, by simp [start]⟩
  simp only [start, empty]
  exact .nil

end Session

end Pgfault
