import Pgfault.Machine
import Pgfault.Observer

namespace Pgfault

open Queue ConnectionState

/-!
# The board of cycles

What events say about statements depends on the queue of cycles and on the
transaction status; name maps, pending changes and epochs only decide what gets
there.  A `Board` is that part of the observer.  Client frames reach it as edits
at the back, server frames as replies at the front, and a reply that finds what
it answers commutes with every edit that could also have come before it.
-/

/-- The part of the observer that events describe. -/
structure Board where
  cycles : List Cycle
  nextCycle : Nat
  txState : TxState

/-- What a client frame adds at the back of the board. -/
structure Edit where
  extended : Bool
  statements : List Statement
  seals : Bool

/-- The change an edit makes to the cycle it works on. -/
def Edit.update (e : Edit) (c : Cycle) : Cycle :=
  { c with
    statements := c.statements ++ e.statements
    executions := c.executions + e.statements.length
    sealed := c.sealed || e.seals }

namespace Board

/-- Whether an edit needs a new cycle. -/
def starts (b : Board) (extended : Bool) : Bool :=
  !extended || b.cycles.getLast?.all Cycle.sealed

/-- The board with the cycle an edit works on at its back. -/
def opened (b : Board) (extended : Bool) : Board :=
  if b.starts extended then
    { b with
      cycles := b.cycles ++
        [{ id := b.nextCycle + 1, extended := extended, sealed := !extended }]
      nextCycle := b.nextCycle + 1 }
  else
    b

/-- The board behind an edit. -/
def amend (b : Board) (e : Edit) : Board :=
  { b.opened e.extended with
    cycles := modifyBack e.update (b.opened e.extended).cycles }

/-- What a server frame that ends no cycle writes into the front cycle. -/
def reply (f : Frame) (c : Cycle) : Cycle :=
  match f.backendTag with
  | .dataRow => { c with rows := c.rows + 1 }
  | .commandComplete => completeCommand f.body c
  | .portalSuspended => suspendPortal c
  | .errorResponse => { c with error := true }
  | _ => c

/-- The board behind a server frame. -/
def serve (b : Board) (f : Frame) : Board :=
  match readyStatus f with
  | some status => { b with cycles := b.cycles.tail, txState := status }
  | none => { b with cycles := modifyFront (reply f) b.cycles }

/-- The server frames whose events or effects concern a statement. -/
def concernsStatement (tag : BackendTag) : Bool :=
  tag = .rowDescription ∨ tag = .dataRow ∨ tag = .commandComplete ∨
    tag = .portalSuspended ∨ tag = .errorResponse

/--
A server frame that finds what it answers: a statement, or else a cycle that is
complete; and the end of a cycle finds it complete.
-/
structure Answerable (b : Board) (f : Frame) : Prop where
  statement :
    concernsStatement f.backendTag = true →
    ∃ c ∈ b.cycles.head?, c.sealed = true ∨ c.statements ≠ []
  group :
    (readyStatus f).isSome = true →
    ∃ c ∈ b.cycles.head?, c.sealed = true

instance (b : Board) (f : Frame) : Decidable (Answerable b f) :=
  decidable_of_iff
    ((concernsStatement f.backendTag = true →
        ∃ c ∈ b.cycles.head?, c.sealed = true ∨ c.statements ≠ []) ∧
      ((readyStatus f).isSome = true →
        ∃ c ∈ b.cycles.head?, c.sealed = true))
    ⟨fun ⟨statement, group⟩ => ⟨statement, group⟩,
      fun answerable => ⟨answerable.1, answerable.2⟩⟩

/-! ## Edits behind a front cycle -/

/-- An edit that does not work on the front cycle works behind it. -/
theorem amend_cons
    {c : Cycle}
    {rest : List Cycle}
    {nextCycle : Nat}
    {txState : TxState}
    {e : Edit}
    (elsewhere : rest = [] → e.extended = true → c.sealed = true) :
    amend ⟨c :: rest, nextCycle, txState⟩ e =
      { amend ⟨rest, nextCycle, txState⟩ e with
        cycles := c :: (amend ⟨rest, nextCycle, txState⟩ e).cycles } := by
  have sameStart :
      starts ⟨c :: rest, nextCycle, txState⟩ e.extended =
        starts ⟨rest, nextCycle, txState⟩ e.extended := by
    cases rest with
    | nil =>
        cases extended : e.extended with
        | true =>
            simp [starts, elsewhere rfl extended]
        | false =>
            rfl
    | cons second later =>
        simp [starts]
  unfold amend opened
  rw [sameStart]
  by_cases start : starts ⟨rest, nextCycle, txState⟩ e.extended = true
  · simp only [if_pos start, ← List.cons_append, modifyBack_concat]
  · rw [if_neg start, if_neg start]
    cases rest with
    | nil =>
        simp [starts] at start
    | cons second later =>
        rfl

/-- An edit of the only cycle. -/
theorem amend_open
    {c : Cycle}
    {nextCycle : Nat}
    {txState : TxState}
    {e : Edit}
    (extended : e.extended = true)
    (unsealed : c.sealed = false) :
    amend ⟨[c], nextCycle, txState⟩ e =
      ⟨[e.update c], nextCycle, txState⟩ := by
  simp [amend, opened, starts, extended, unsealed, modifyBack]

theorem reply_sealed (f : Frame) (c : Cycle) :
    (reply f c).sealed = c.sealed := by
  unfold reply
  cases f.backendTag <;>
    simp [completeCommand, suspendPortal, popStatement_eq]

/-- Reply and edit of one cycle, where the reply finds a statement. -/
theorem reply_update
    {c : Cycle}
    (waits : c.statements ≠ [])
    (f : Frame)
    (e : Edit) :
    reply f (e.update c) = e.update (reply f c) := by
  cases statements : c.statements with
  | nil =>
      exact absurd statements waits
  | cons first rest =>
      unfold reply Edit.update
      cases f.backendTag <;>
        simp [completeCommand, suspendPortal, popStatement, statements]

/-- Frames that concern no statement leave the cycles alone. -/
theorem reply_of_unconcerned
    {f : Frame}
    (quiet : concernsStatement f.backendTag = false)
    (c : Cycle) :
    reply f c = c := by
  unfold reply
  cases tag : f.backendTag <;> simp [concernsStatement, tag] at quiet ⊢

/-- A reply that finds what it answers commutes with an edit. -/
theorem serve_amend
    {b : Board}
    {f : Frame}
    (answerable : Answerable b f)
    (e : Edit) :
    (b.amend e).serve f = (b.serve f).amend e := by
  obtain ⟨cycles, nextCycle, txState⟩ := b
  unfold serve
  cases ready : readyStatus f with
  | some status =>
      obtain ⟨c, front, isSealed⟩ := answerable.group (by simp [ready])
      cases cycles with
      | nil =>
          cases front
      | cons first rest =>
          cases front
          simp only [List.tail_cons]
          rw [amend_cons fun _ _ => isSealed]
          unfold amend opened starts
          split <;> rfl
  | none =>
      cases concerned : concernsStatement f.backendTag with
      | false =>
          have same (queue : List Cycle) :
              modifyFront (reply f) queue = queue := by
            cases queue with
            | nil =>
                rfl
            | cons first rest =>
                simp [reply_of_unconcerned concerned]
          simp only [same]
      | true =>
          obtain ⟨c, front, complete⟩ := answerable.statement concerned
          cases cycles with
          | nil =>
              cases front
          | cons first rest =>
              cases front
              simp only [modifyFront_cons]
              by_cases onFront :
                  rest = [] ∧ e.extended = true ∧ c.sealed = false
              · -- The edit works on the cycle that is being answered.
                obtain ⟨rfl, extended, unsealed⟩ := onFront
                have waits : c.statements ≠ [] := by
                  rcases complete with isSealed | waits
                  · rw [unsealed] at isSealed
                    cases isSealed
                  · exact waits
                rw [amend_open extended unsealed,
                  amend_open extended ((reply_sealed f c).trans unsealed)]
                simp only [modifyFront_cons, reply_update waits]
              · have elsewhere :
                    rest = [] → e.extended = true → c.sealed = true := by
                  intro alone extended
                  by_contra unsealed
                  exact onFront ⟨alone, extended, by simpa using unsealed⟩
                rw [amend_cons elsewhere, amend_cons fun alone extended =>
                  (reply_sealed f c).trans (elsewhere alone extended)]
                simp only [modifyFront_cons]

/-- The front cycle behind an edit. -/
theorem front_amend
    {b : Board}
    {c : Cycle}
    (front : b.cycles.head? = some c)
    (e : Edit) :
    (b.amend e).cycles.head? = some c ∨
      c.sealed = false ∧
        (b.amend e).cycles.head? = some (e.update c) := by
  obtain ⟨cycles, nextCycle, txState⟩ := b
  cases cycles with
  | nil =>
      cases front
  | cons first rest =>
      cases front
      by_cases onFront : rest = [] ∧ e.extended = true ∧ c.sealed = false
      · obtain ⟨rfl, extended, unsealed⟩ := onFront
        right
        rw [amend_open extended unsealed]
        exact ⟨unsealed, rfl⟩
      · left
        have elsewhere :
            rest = [] → e.extended = true → c.sealed = true := by
          intro alone extended
          by_contra unsealed
          exact onFront ⟨alone, extended, by simpa using unsealed⟩
        rw [amend_cons elsewhere]
        rfl

/-- What a reply finds, it also finds behind an edit. -/
theorem Answerable.amend
    {b : Board}
    {f : Frame}
    (answerable : Answerable b f)
    (e : Edit) :
    Answerable (b.amend e) f := by
  refine ⟨?_, ?_⟩
  · intro concerned
    obtain ⟨c, front, complete⟩ := answerable.statement concerned
    rcases front_amend front e with same | ⟨-, updated⟩
    · exact ⟨c, same, complete⟩
    · refine ⟨e.update c, updated, ?_⟩
      rcases complete with isSealed | waits
      · exact Or.inl (by simp [Edit.update, isSealed])
      · exact Or.inr (by simp [Edit.update, waits])
  · intro ready
    obtain ⟨c, front, isSealed⟩ := answerable.group ready
    rcases front_amend front e with same | ⟨unsealed, -⟩
    · exact ⟨c, same, isSealed⟩
    · rw [isSealed] at unsealed
      cases unsealed

/-! ## What the events of a reply say -/

/-- A reliable observer with a given board. -/
def state (b : Board) : ConnectionState :=
  { ConnectionState.new 0 default with
    cycles := b.cycles
    nextCycle := b.nextCycle
    txState := b.txState }

/-- The names and coordinates of the events a server frame raises. -/
def signature (b : Board) (f : Frame) : List (String × Coordinates) :=
  (b.state.backendNames f).map fun name => (name, b.state.coordinates false)

/-- What the end of a cycle is decided from. -/
def outcome (c : Cycle) : Bool × Statement × String :=
  (c.error, c.last, c.command)

/-- The names of a reply depend on the status and the front cycle only. -/
theorem backendNames_congr
    {s t : ConnectionState}
    {f : Frame}
    (status : t.txState = s.txState)
    (reliable : t.reliable = s.reliable)
    (front :
      (readyStatus f).isSome = true →
      t.cycles.head?.map outcome = s.cycles.head?.map outcome) :
    t.backendNames f = s.backendNames f := by
  unfold backendNames
  cases tag : f.backendTag <;> try rfl
  cases known : statusOf f.body with
  | none =>
      rfl
  | some new =>
      have same := front (by simp [readyStatus, tag, known])
      have decides : t.completed new = s.completed new := by
        unfold completed
        cases first : s.cycles.head? with
        | none =>
            have none : t.cycles.head? = none := by
              simpa [first] using same
            simp [none]
        | some c =>
            obtain ⟨d, second, equal⟩ :
                ∃ d, t.cycles.head? = some d ∧ outcome d = outcome c := by
              simpa [first] using same
            simp only [outcome, Prod.mk.injEq] at equal
            obtain ⟨error, last, command⟩ := equal
            simp [second, error, last, command, status, reliable]
      simp only [readyNames, status, decides]

/-- The coordinates of a reply depend on the front cycle only. -/
theorem coordinates_congr
    {s t : ConnectionState}
    {c d : Cycle}
    (front : s.cycles.head? = some c)
    (front' : t.cycles.head? = some d)
    (id : d.id = c.id)
    (statement : referencedStatement false d = referencedStatement false c)
    (index : referencedIndex false d = referencedIndex false c) :
    t.coordinates false = s.coordinates false := by
  simp [ConnectionState.coordinates, referenced, front, front', id, statement,
    index]

/-- A reply that finds what it answers says the same behind an edit. -/
theorem signature_amend
    {b : Board}
    {f : Frame}
    (answerable : Answerable b f)
    (e : Edit) :
    (b.amend e).signature f = b.signature f := by
  have status : (b.amend e).state.txState = b.state.txState := by
    simp only [state, Board.amend, opened]
    split <;> rfl
  have names : (b.amend e).state.backendNames f = b.state.backendNames f := by
    refine backendNames_congr status rfl ?_
    intro ready
    obtain ⟨c, front, isSealed⟩ := answerable.group ready
    rcases front_amend front e with same | ⟨unsealed, -⟩
    · exact congrArg (Option.map outcome) (same.trans front.symm)
    · rw [isSealed] at unsealed
      cases unsealed
  unfold signature
  rw [names]
  by_cases silent : b.state.backendNames f = []
  · rw [silent]
    rfl
  have located :
      (b.amend e).state.coordinates false = b.state.coordinates false := by
    have complete : ∃ c ∈ b.cycles.head?, c.sealed = true ∨ c.statements ≠ [] := by
      by_cases ready : (readyStatus f).isSome = true
      · obtain ⟨c, front, isSealed⟩ := answerable.group ready
        exact ⟨c, front, Or.inl isSealed⟩
      · refine answerable.statement ?_
        unfold backendNames at silent
        cases tag : f.backendTag <;>
          simp [tag, concernsStatement, readyStatus] at silent ready ⊢
        simp [ready] at silent
    obtain ⟨c, front, complete⟩ := complete
    rcases front_amend front e with same | ⟨unsealed, updated⟩
    · exact coordinates_congr front same rfl rfl rfl
    · have waits : c.statements ≠ [] := by
        rcases complete with isSealed | waits
        · rw [unsealed] at isSealed
          cases isSealed
        · exact waits
      obtain ⟨first, rest, statements⟩ := List.exists_cons_of_ne_nil waits
      refine coordinates_congr front updated rfl ?_ ?_
      · simp [referencedStatement, Edit.update, statements]
      · simp [referencedIndex, Edit.update, statements]
  rw [located]

/-! ## Many edits -/

/-- The board behind some edits. -/
def feed (b : Board) (edits : List Edit) : Board :=
  Machine.run amend b edits

/-- A reply that finds what it answers may come before or behind edits. -/
theorem feed_serve
    {b : Board}
    {f : Frame}
    (answerable : Answerable b f)
    (edits : List Edit) :
    (b.feed edits).serve f = (b.serve f).feed edits ∧
      (b.feed edits).signature f = b.signature f := by
  induction edits generalizing b with
  | nil =>
      exact ⟨rfl, rfl⟩
  | cons e later inductionHypothesis =>
      obtain ⟨served, signed⟩ := inductionHypothesis (answerable.amend e)
      refine ⟨?_, ?_⟩
      · calc
          (b.feed (e :: later)).serve f = ((b.amend e).feed later).serve f := rfl
          _ = ((b.amend e).serve f).feed later := served
          _ = ((b.serve f).amend e).feed later := by
            rw [serve_amend answerable]
          _ = (b.serve f).feed (e :: later) := rfl
      · exact signed.trans (signature_amend answerable e)

/-! ## The back of the board -/

/-- What client frames and their events see of the cycle at the back. -/
structure View where
  id : Nat
  executions : Nat
  sealed : Bool
  statement : Statement

/-- The view of a cycle. -/
def view (c : Cycle) : View :=
  ⟨c.id, c.executions, c.sealed, referencedStatement true c⟩

/-- What an edit does to the view. -/
def see (e : Edit) (v : View) : View where
  id := v.id
  executions := v.executions + e.statements.length
  sealed := v.sealed || e.seals
  statement := e.statements.getLast?.getD v.statement

theorem view_update (e : Edit) (c : Cycle) :
    view (e.update c) = see e (view c) := by
  have back :
      referencedStatement true (e.update c) =
        e.statements.getLast?.getD (referencedStatement true c) := by
    simp only [referencedStatement, Edit.update, if_true,
      List.getLast?_append]
    cases e.statements.getLast? <;> rfl
  simp only [view, see, back]
  rfl

/-- Replies do not change the view. -/
theorem view_reply (f : Frame) (c : Cycle) :
    view (reply f c) = view c := by
  have back :
      referencedStatement true (reply f c) = referencedStatement true c := by
    unfold reply
    cases f.backendTag
    case commandComplete =>
      refine referencedStatement_of_pop ?_ ?_
      · simp [completeCommand, popStatement_eq]
      · simp [completeCommand, popStatement_eq, referencedStatement]
    case portalSuspended =>
      refine referencedStatement_of_pop ?_ ?_
      · simp [suspendPortal, popStatement_eq]
      · simp [suspendPortal, popStatement_eq, referencedStatement]
    all_goals rfl
  have rest :
      (reply f c).id = c.id ∧ (reply f c).executions = c.executions ∧
        (reply f c).sealed = c.sealed := by
    unfold reply
    cases f.backendTag <;>
      simp [completeCommand, suspendPortal, popStatement_eq]
  simp only [view, back, rest.1, rest.2.1, rest.2.2]

/-- Two boards that look alike to the client. -/
structure SameBack (b w : Board) : Prop where
  nextCycle : b.nextCycle = w.nextCycle
  back :
    ∀ v,
      (b.cycles.map view).getLast? = some v →
      (w.cycles.map view).getLast? = some v
  empty : b.cycles = [] → w.starts true = true

theorem SameBack.refl (b : Board) : SameBack b b :=
  ⟨rfl, fun _ same => same, fun none => by simp [starts, none]⟩

/-- Whether an edit starts a cycle is seen in the view. -/
theorem starts_eq (b : Board) (extended : Bool) :
    b.starts extended =
      (!extended || ((b.cycles.map view).getLast?.map View.sealed).getD
        true) := by
  unfold starts
  rw [List.getLast?_map]
  cases b.cycles.getLast? <;> rfl

theorem SameBack.starts
    {b w : Board}
    (same : SameBack b w)
    (extended : Bool) :
    b.starts extended = w.starts extended := by
  cases extended with
  | false =>
      rfl
  | true =>
      cases last : (b.cycles.map view).getLast? with
      | none =>
          have none : b.cycles = [] := by simpa using last
          rw [same.empty none]
          simp [Board.starts, none]
      | some v =>
          rw [starts_eq, starts_eq, last, same.back v last]

/-- The cycle an edit works on, as the client sees it. -/
theorem back_amend
    {b w : Board}
    (same : SameBack b w)
    (e : Edit) :
    ∃ v,
      ((b.amend e).cycles.map view).getLast? = some v ∧
        ((w.amend e).cycles.map view).getLast? = some v := by
  have amended (x : Board) :
      ((x.amend e).cycles.map view).getLast? =
        ((x.opened e.extended).cycles.map view).getLast?.map (see e) := by
    simp only [Board.amend]
    rw [map_modifyBack_of (view_update e), getLast?_modifyBack]
  have openedAlike :
      ∃ v,
        ((b.opened e.extended).cycles.map view).getLast? = some v ∧
          ((w.opened e.extended).cycles.map view).getLast? = some v := by
    unfold opened
    rw [← same.starts e.extended]
    by_cases start : b.starts e.extended = true
    · simp only [if_pos start, same.nextCycle, List.map_append, List.map_cons,
        List.map_nil, List.getLast?_concat]
      exact ⟨_, rfl, rfl⟩
    · simp only [if_neg start]
      cases last : (b.cycles.map view).getLast? with
      | none =>
          have none : b.cycles = [] := by simpa using last
          simp [starts, none] at start
      | some v =>
          exact ⟨v, rfl, same.back v last⟩
  obtain ⟨v, left, right⟩ := openedAlike
  exact ⟨see e v, by rw [amended, left]; rfl, by rw [amended, right]; rfl⟩

theorem SameBack.amend
    {b w : Board}
    (same : SameBack b w)
    (e : Edit) :
    SameBack (b.amend e) (w.amend e) := by
  obtain ⟨v, left, right⟩ := back_amend same e
  refine ⟨?_, ?_, ?_⟩
  · simp only [Board.amend, opened]
    rw [← same.starts e.extended]
    split
    · simp [same.nextCycle]
    · exact same.nextCycle
  · intro u last
    rw [left] at last
    rw [right, last]
  · intro none
    simp [none] at left

/-- A reply leaves the back alone, or ends a complete cycle. -/
theorem SameBack.serve
    {b w : Board}
    {f : Frame}
    (same : SameBack b w)
    (answerable : Answerable b f) :
    SameBack (b.serve f) w := by
  unfold Board.serve
  cases ready : readyStatus f with
  | none =>
      refine ⟨same.nextCycle, ?_, ?_⟩
      · intro v last
        simp only [map_modifyFront (view_reply f)] at last
        exact same.back v last
      · intro none
        refine same.empty ?_
        cases queue : b.cycles with
        | nil =>
            rfl
        | cons first rest =>
            simp [queue] at none
  | some status =>
      obtain ⟨c, front, isSealed⟩ := answerable.group (by simp [ready])
      cases queue : b.cycles with
      | nil =>
          simp [queue] at front
      | cons first rest =>
          have isFront : first = c := by simpa [queue] using front
          subst isFront
          refine ⟨same.nextCycle, ?_, ?_⟩
          · intro v last
            refine same.back v ?_
            rw [queue]
            cases rest with
            | nil =>
                simp at last
            | cons second later =>
                simpa using last
          · intro none
            -- The last cycle has gone, and it was complete.
            have alone : rest = [] := none
            have last := same.back (view first) (by simp [queue, alone])
            rw [starts_eq, last]
            simp [view, isSealed]

/-- Boards that look alike give client events the same coordinates. -/
theorem coordinates_of_back
    {b w : Board}
    {v : View}
    (left : (b.cycles.map view).getLast? = some v)
    (right : (w.cycles.map view).getLast? = some v) :
    b.state.coordinates true = w.state.coordinates true := by
  have read
      {x : Board}
      (last : (x.cycles.map view).getLast? = some v) :
      x.state.coordinates true =
        ⟨v.id, v.executions, v.statement.statementClass,
          v.statement.fingerprint⟩ := by
    rw [List.getLast?_map] at last
    obtain ⟨c, back, isView⟩ := Option.map_eq_some_iff.mp last
    rw [← isView]
    simp [ConnectionState.coordinates, referenced, state, back, view,
      referencedIndex]
  rw [read left, read right]

end Board

/-! ## The board of an observer -/

/-- A cycle without its pending changes and its epoch mark. -/
def bare (c : Cycle) : Cycle :=
  { c with mutations := [], epochAllocated := false }

/-- The name and the statement coordinates of an event. -/
def Event.key (e : Event) : String × Coordinates :=
  (e.event, e.coordinates)

namespace ConnectionState

/-- The part of the observer that events describe. -/
def board (s : ConnectionState) : Board where
  cycles := s.cycles.map bare
  nextCycle := s.nextCycle
  txState := s.txState

/-- What a client frame adds at the back of the board. -/
def edit
    (sha256 : Bytes → String)
    (s : ConnectionState)
    (f : Frame) : Option Edit :=
  (touch f).map fun how => ⟨how.extended, s.noted sha256 f, how.seals⟩

theorem bare_answer (f : Frame) (c : Cycle) :
    bare (answer f c) = Board.reply f (bare c) := by
  unfold answer Board.reply
  cases f.backendTag <;>
    simp [bare, completeCommand, suspendPortal, popStatement_eq]

/-- A server frame is a reply on the board. -/
theorem board_advance (s : ConnectionState) (f : Frame) :
    (s.advance f).board = s.board.serve f := by
  unfold board Board.serve
  rw [advance_nextCycle, advance_txState]
  cases ready : readyStatus f with
  | some status =>
      rw [advance_cycles_of_ready s ready, List.map_tail]
      rfl
  | none =>
      rw [advance_cycles_of_open s ready,
        map_modifyFront_of (bare_answer f)]
      rfl

theorem bare_update
    {added : List Statement}
    {seals extended : Bool}
    {update : Cycle → Cycle}
    (updates : BackUpdate added seals update)
    (c : Cycle) :
    bare (update c) = Edit.update ⟨extended, added, seals⟩ (bare c) := by
  obtain ⟨id, last, rows, command, error, isExtended, index, -, -, -⟩ :=
    updates.grows c
  simp [bare, Edit.update, id, last, rows, command, error, isExtended, index,
    updates.statements, updates.executions, updates.sealed]

theorem board_openCycle (s : ConnectionState) (extended : Bool) :
    (s.openCycle extended).board = s.board.opened extended := by
  have sameStart : s.startsCycle extended = s.board.starts extended := by
    unfold startsCycle Board.starts board
    rw [List.getLast?_map]
    cases s.cycles.getLast? <;> rfl
  unfold openCycle Board.opened
  rw [← sameStart]
  split
  · simp [board, bare]
  · rfl

theorem board_allocateEpoch (s : ConnectionState) (f : Frame) :
    (s.allocateEpoch f).board = s.board := by
  have keeps (c : Cycle) : bare (markEpoch c) = bare c := rfl
  unfold allocateEpoch
  split
  · exact congrArg (fun cycles => Board.mk cycles s.nextCycle s.txState)
      (map_modifyFront keeps s.cycles)
  · rfl

/-- A client frame is an edit of the board. -/
theorem board_accept
    (sha256 : Bytes → String)
    (s : ConnectionState)
    (f : Frame) :
    (s.accept sha256 f).board =
      (s.edit sha256 f).elim s.board s.board.amend := by
  have received := receive_receives sha256 s f
  unfold accept
  rw [board_allocateEpoch]
  rcases received.queue with
      ⟨untouched, -, cycles, nextCycle⟩ |
        ⟨how, update, touches, updates, cycles, nextCycle⟩
  · simp [edit, untouched, board, cycles, nextCycle, received.txState]
  · have shape :
        (s.receive sha256 f).1.board =
          { (s.openCycle how.extended).board with
            cycles := ((modifyBack update
              (s.openCycle how.extended).cycles).map bare) } := by
      simp [board, cycles, nextCycle, received.txState]
    rw [shape, map_modifyBack_of (bare_update updates)]
    simp only [edit, touches, Option.map_some, Option.elim_some, Board.amend]
    rw [← board_openCycle]
    rfl

/-! ## Events and the board -/

@[simp] theorem board_recount
    (s : ConnectionState)
    (counters : String → Nat) :
    (s.recount counters).board = s.board := rfl

theorem board_frontend
    (sha256 : Bytes → String)
    (s : ConnectionState)
    (f : Frame) :
    (s.frontend sha256 f).2.board =
      (s.edit sha256 f).elim s.board s.board.amend := by
  rw [frontend_state, board_recount, board_accept]

theorem board_backend (s : ConnectionState) (f : Frame) :
    (s.backend f).2.board = s.board.serve f := by
  rw [backend_state, board_recount, board_advance]

/-- Coordinates are read off the board. -/
theorem coordinates_board (s : ConnectionState) (front : Bool) :
    s.board.state.coordinates front = s.coordinates front := by
  have front_map :
      s.board.state.referenced front = (s.referenced front).map bare := by
    unfold referenced
    split
    · exact List.getLast?_map
    · exact List.head?_map
  unfold ConnectionState.coordinates
  rw [front_map]
  cases s.referenced front with
  | none =>
      rfl
  | some c =>
      rfl

/-- The names and coordinates of a server frame's events. -/
theorem backend_keys
    {s : ConnectionState}
    (reliable : s.reliable = true)
    (f : Frame) :
    (s.backend f).1.map Event.key = s.board.signature f := by
  have located :
      (s.backend f).1.map Event.key =
        (s.backend f).1.map fun e => (e.event, s.coordinates false) :=
    List.map_congr_left fun e member => by
      rw [Event.key, (mem_backend member).2.1]
  have names : s.board.state.backendNames f = s.backendNames f := by
    refine Board.backendNames_congr rfl reliable.symm fun _ => ?_
    simp only [Board.state, board, List.head?_map, Option.map_map]
    rfl
  rw [located, Board.signature, names, coordinates_board, ← backend_names,
    List.map_map]
  rfl

/-- The names and coordinates of a client frame's events. -/
theorem frontend_keys
    (sha256 : Bytes → String)
    (s : ConnectionState)
    (f : Frame) :
    (s.frontend sha256 f).1.map Event.key =
      (s.receive sha256 f).2.map fun name =>
        (name, (s.accept sha256 f).board.state.coordinates true) := by
  have located :
      (s.frontend sha256 f).1.map Event.key =
        (s.frontend sha256 f).1.map fun e =>
          (e.event, (s.accept sha256 f).coordinates true) :=
    List.map_congr_left fun e member => by
      rw [Event.key, (mem_frontend member).2.1]
  rw [located, coordinates_board, ← frontend_names, List.map_map]
  rfl

end ConnectionState

end Pgfault
