import Mathlib.Algebra.Ring.Int.Defs
import Mathlib.Algebra.Ring.Nat
import Mathlib.Logic.Relation

namespace Loops

/-!
# Loops whose passes may panic

A computation ends with a value, panics, or is unfinished when its fuel runs
out.  The body of a loop is given by one pass over its variables, which goes on
with other variables or is done with a result; `loop` repeats it.

A loop that walks over a sequence has a position.  `Forward` says of every pass
of a run that it does not panic and moves the position forward within a bound.
Such a loop ends, and any fuel above the distance to the bound is enough.
-/

variable {α β State Result : Type}

/-- How a computation ends. -/
inductive Outcome (α : Type) where
  | value (found : α)
  | panic
  | unfinished
  deriving Repr, DecidableEq

namespace Outcome

/-- Go on with a value. -/
def bind (outcome : Outcome α) (next : α → Outcome β) : Outcome β :=
  match outcome with
  | .value found => next found
  | .panic => .panic
  | .unfinished => .unfinished

instance : Monad Outcome where
  pure := value
  bind := bind

@[simp] theorem pure_eq (found : α) :
    (pure found : Outcome α) = .value found := rfl

@[simp] theorem value_bind (found : α) (next : α → Outcome β) :
    (Outcome.value found >>= next) = next found := rfl

/-- A computation ends with a value, and the value meets a condition. -/
def Returns (outcome : Outcome α) (post : α → Prop) : Prop :=
  ∃ found, outcome = .value found ∧ post found

@[simp] theorem returns_value (found : α) (post : α → Prop) :
    (Outcome.value found).Returns post ↔ post found := by
  simp [Returns]

theorem Returns.imp
    {outcome : Outcome α}
    {post weaker : α → Prop}
    (returns : outcome.Returns post)
    (implies : ∀ found, post found → weaker found) :
    outcome.Returns weaker := by
  obtain ⟨found, isValue, holds⟩ := returns
  exact ⟨found, isValue, implies found holds⟩

/-- What the first part returns is what the second part starts from. -/
theorem Returns.bind
    {outcome : Outcome α}
    {next : α → Outcome β}
    {middle : α → Prop}
    {post : β → Prop}
    (returns : outcome.Returns middle)
    (goesOn : ∀ found, middle found → (next found).Returns post) :
    (outcome >>= next).Returns post := by
  obtain ⟨found, rfl, holds⟩ := returns
  rw [value_bind]
  exact goesOn found holds

end Outcome

/-! ## Checked access -/

/-- `items[i]`. -/
def indexAt (items : List α) (i : Nat) : Outcome α :=
  match items[i]? with
  | some item => .value item
  | none => .panic

/-- `&items[low..high]`. -/
def sliceAt (items : List α) (low high : Nat) : Outcome (List α) :=
  if low ≤ high ∧ high ≤ items.length then
    .value ((items.take high).drop low)
  else
    .panic

/-- `&items[low..]`. -/
def sliceFrom (items : List α) (low : Nat) : Outcome (List α) :=
  if low ≤ items.length then .value (items.drop low) else .panic

/-- What an arithmetic overflow does, by the build profile. -/
inductive Overflow where
  | wraps
  | panics
  deriving Repr, DecidableEq

/-- Addition of signed integers of some width. -/
def addSigned (bits : Nat) (overflow : Overflow) (a b : Int) : Outcome Int :=
  if -2 ^ (bits - 1) ≤ a + b ∧ a + b < 2 ^ (bits - 1) then
    .value (a + b)
  else
    match overflow with
    | .wraps => .value ((a + b).bmod (2 ^ bits))
    | .panics => .panic

theorem indexAt_of_getElem?
    {items : List α}
    {i : Nat}
    {item : α}
    (found : items[i]? = some item) :
    indexAt items i = .value item := by
  rw [indexAt, found]

theorem sliceAt_of_le
    {items : List α}
    {low high : Nat}
    (ordered : low ≤ high)
    (inRange : high ≤ items.length) :
    sliceAt items low high = .value ((items.take high).drop low) :=
  if_pos ⟨ordered, inRange⟩

theorem sliceFrom_of_le
    {items : List α}
    {low : Nat}
    (inRange : low ≤ items.length) :
    sliceFrom items low = .value (items.drop low) :=
  if_pos inRange

/-- An addition returns where overflow wraps, and where nothing overflows. -/
theorem addSigned_returns
    {bits : Nat}
    (overflow : Overflow)
    {a b : Int}
    (fits :
      overflow = .panics → -2 ^ (bits - 1) ≤ a + b ∧ a + b < 2 ^ (bits - 1)) :
    (addSigned bits overflow a b).Returns fun sum =>
      overflow = .panics → sum = a + b := by
  unfold addSigned
  split
  · exact ⟨_, rfl, fun _ => rfl⟩
  · next outside =>
      cases overflow with
      | wraps =>
          exact ⟨_, rfl, fun panics => by cases panics⟩
      | panics =>
          exact absurd (fits rfl) outside

/-! ## Enough fuel -/

/-- Every fuel above a bound gives one and the same value, with a condition. -/
def Settles (bound : Nat) (run : Nat → Outcome α) (post : α → Prop) : Prop :=
  ∃ found, (∀ fuel, bound < fuel → run fuel = .value found) ∧ post found

namespace Settles

variable {bound : Nat} {post : α → Prop}

theorem of_returns
    {outcome : Outcome α}
    (returns : outcome.Returns post) :
    Settles bound (fun _ => outcome) post := by
  obtain ⟨found, isValue, holds⟩ := returns
  exact ⟨found, fun _ _ => isValue, holds⟩

theorem returns
    {run : Nat → Outcome α}
    (settles : Settles bound run post)
    {fuel : Nat}
    (enough : bound < fuel) :
    (run fuel).Returns post := by
  obtain ⟨found, ends, holds⟩ := settles
  exact ⟨found, ends fuel enough, holds⟩

/-- Two runs on enough fuel end in the same way. -/
theorem congr
    {run : Nat → Outcome α}
    (settles : Settles bound run post)
    {fuel more : Nat}
    (enough : bound < fuel)
    (alsoEnough : bound < more) :
    run fuel = run more := by
  obtain ⟨found, ends, -⟩ := settles
  rw [ends fuel enough, ends more alsoEnough]

theorem imp
    {run : Nat → Outcome α}
    {weaker : α → Prop}
    (settles : Settles bound run post)
    (implies : ∀ found, post found → weaker found) :
    Settles bound run weaker := by
  obtain ⟨found, ends, holds⟩ := settles
  exact ⟨found, ends, implies found holds⟩

theorem mono
    {run : Nat → Outcome α}
    {larger : Nat}
    (settles : Settles bound run post)
    (grows : bound ≤ larger) :
    Settles larger run post := by
  obtain ⟨found, ends, holds⟩ := settles
  exact ⟨found, fun fuel enough => ends fuel (Nat.lt_of_le_of_lt grows enough),
    holds⟩

theorem bind
    {run : Nat → Outcome α}
    {next : Nat → α → Outcome β}
    {after : β → Prop}
    (settles : Settles bound run post)
    (goesOn :
      ∀ found, post found → Settles bound (fun fuel => next fuel found) after) :
    Settles bound (fun fuel => run fuel >>= next fuel) after := by
  obtain ⟨found, ends, holds⟩ := settles
  obtain ⟨result, finishes, met⟩ := goesOn found holds
  refine ⟨result, ?_, met⟩
  intro fuel enough
  change run fuel >>= next fuel = .value result
  rw [ends fuel enough, Outcome.value_bind]
  exact finishes fuel enough

theorem ite
    {test : Prop}
    [Decidable test]
    {first second : Nat → Outcome α}
    (holds : test → Settles bound first post)
    (fails : ¬ test → Settles bound second post) :
    Settles bound (fun fuel => if test then first fuel else second fuel)
      post := by
  by_cases isTrue : test
  · simp only [if_pos isTrue]
    exact holds isTrue
  · simp only [if_neg isTrue]
    exact fails isTrue

end Settles

/-! ## Loops -/

/-- How one pass of a loop ends. -/
inductive Round (State Result : Type) where
  | next (s : State)
  | done (r : Result)
  deriving Repr, DecidableEq

/-- A condition on how a pass ends: one for its next state, one for its result. -/
def Round.Meets (goesOn : State → Prop) (ends : Result → Prop) :
    Round State Result → Prop
  | .next s => goesOn s
  | .done r => ends r

/-- Repeat a pass until it is done. -/
def loop (pass : State → Outcome (Round State Result)) :
    Nat → State → Outcome Result
  | 0, _ => .unfinished
  | fuel + 1, s => do
      match ← pass s with
      | .next t => loop pass fuel t
      | .done r => return r

/-- The states at which a run of a loop starts a pass. -/
def Visits (pass : State → Outcome (Round State Result)) :
    State → State → Prop :=
  Relation.ReflTransGen fun s t => pass s = .value (.next t)

theorem loop_next
    {pass : State → Outcome (Round State Result)}
    {s t : State}
    (goesOn : pass s = .value (.next t))
    (fuel : Nat) :
    loop pass (fuel + 1) s = loop pass fuel t := by
  simp [loop, goesOn]

theorem loop_done
    {pass : State → Outcome (Round State Result)}
    {s : State}
    {r : Result}
    (ends : pass s = .value (.done r))
    (fuel : Nat) :
    loop pass (fuel + 1) s = .value r := by
  simp [loop, ends]

section Forward

variable (bound : Nat) (position : State → Nat) (leaves : Result → Option Nat)
variable (pass : State → Outcome (Round State Result))

/--
A pass does not panic.  It goes on behind its position and within the bound, or
it is done, at a position in the same range where the result has one.
-/
def Advances (s : State) : Prop :=
  (pass s).Returns (Round.Meets
    (fun t => position s < position t ∧ position t ≤ bound)
    (fun r => ∀ stop ∈ leaves r, position s ≤ stop ∧ stop ≤ bound))

/-- Every pass of a run from a state is within the bound and advances. -/
def Forward (start : State) : Prop :=
  ∀ s, Visits pass start s →
    position s ≤ bound ∧ Advances bound position leaves pass s

end Forward

section

variable {bound : Nat} {position : State → Nat} {leaves : Result → Option Nat}
variable {pass : State → Outcome (Round State Result)}

/--
An invariant that bounds the position, and from which every pass advances to a
state that keeps it, holds along the whole run.
-/
theorem forward_of_invariant
    (invariant : State → Prop)
    (within : ∀ s, invariant s → position s ≤ bound)
    (passes :
      ∀ s, invariant s →
        (pass s).Returns (Round.Meets
          (fun t => invariant t ∧ position s < position t)
          (fun r => ∀ stop ∈ leaves r, position s ≤ stop ∧ stop ≤ bound)))
    {start : State}
    (initial : invariant start) :
    Forward bound position leaves pass start := by
  have holds {s : State} (visits : Visits pass start s) : invariant s := by
    induction visits with
    | refl =>
        exact initial
    | @tail s t _ moved inductionHypothesis =>
        obtain ⟨round, ends, progress⟩ := passes s inductionHypothesis
        rw [moved, Outcome.value.injEq] at ends
        subst ends
        exact progress.1
  intro s visits
  refine ⟨within s (holds visits), (passes s (holds visits)).imp ?_⟩
  intro round progress
  cases round with
  | next t =>
      exact ⟨progress.2, within t progress.1⟩
  | done r =>
      exact progress

/-- Behind a pass, the rest of the run moves forward too. -/
theorem Forward.next
    {start s : State}
    (forward : Forward bound position leaves pass start)
    (moved : pass start = .value (.next s)) :
    Forward bound position leaves pass s :=
  fun t visits => forward t (visits.head moved)

/--
A loop that moves forward ends within the bound.  Any fuel above the distance to
the bound is enough.
-/
theorem Forward.settles
    {start : State}
    (forward : Forward bound position leaves pass start) :
    Settles (bound - position start) (fun fuel => loop pass fuel start)
      fun r => ∀ stop ∈ leaves r, position start ≤ stop ∧ stop ≤ bound := by
  induction distance : bound - position start using Nat.strongRecOn
    generalizing start with
  | ind n inductionHypothesis =>
      obtain ⟨-, round, moves, progress⟩ := forward start .refl
      have succ {fuel : Nat} (enough : n < fuel) : ∃ less, fuel = less + 1 :=
        Nat.exists_eq_succ_of_ne_zero (Nat.ne_zero_of_lt enough)
      cases round with
      | next t =>
          obtain ⟨further, within⟩ := progress
          obtain ⟨r, result, inside⟩ :=
            inductionHypothesis (bound - position t) (by omega)
              (forward.next moves) rfl
          refine ⟨r, ?_, ?_⟩
          · intro fuel enough
            obtain ⟨less, rfl⟩ := succ enough
            exact (loop_next moves less).trans (result less (by omega))
          · intro stop leaving
            obtain ⟨after, stops⟩ := inside stop leaving
            exact ⟨Nat.le_trans (Nat.le_of_lt further) after, stops⟩
      | done r =>
          refine ⟨r, ?_, progress⟩
          intro fuel enough
          obtain ⟨less, rfl⟩ := succ enough
          exact loop_done moves less

/-- Passes that agree wherever a run comes along make the same run. -/
theorem loop_congr
    {other : State → Outcome (Round State Result)}
    {start : State}
    (agree : ∀ s, Visits pass start s → other s = pass s)
    (fuel : Nat) :
    loop other fuel start = loop pass fuel start := by
  induction fuel generalizing start with
  | zero =>
      rfl
  | succ fuel inductionHypothesis =>
      rw [loop, loop, agree start .refl]
      cases ends : pass start with
      | value round =>
          cases round with
          | next t =>
              exact inductionHypothesis fun s visits =>
                agree s (visits.head ends)
          | done r =>
              rfl
      | panic =>
          rfl
      | unfinished =>
          rfl

/-- A loop whose passes run loops of their own, all on the same fuel. -/
theorem settles_loop
    {passes : Nat → State → Outcome (Round State Result)}
    {start : State}
    (forward : Forward bound position leaves (passes (bound + 1)) start)
    (same :
      ∀ s, position s ≤ bound → ∀ fuel, bound < fuel →
        passes fuel s = passes (bound + 1) s) :
    Settles bound (fun fuel => loop (passes fuel) fuel start) fun r =>
      ∀ stop ∈ leaves r, position start ≤ stop ∧ stop ≤ bound := by
  obtain ⟨r, ends, inside⟩ := forward.settles
  refine ⟨r, ?_, inside⟩
  intro fuel enough
  have agree :
      ∀ s, Visits (passes (bound + 1)) start s →
        passes fuel s = passes (bound + 1) s :=
    fun s visits => same s (forward s visits).1 fuel enough
  exact (loop_congr agree fuel).trans
    (ends fuel (Nat.lt_of_le_of_lt (Nat.sub_le _ _) enough))

/--
A loop follows a function on its own fuel.  From a state that keeps the
invariant, either the pass and the function go on to the same state, or the pass
is done with the function's result.
-/
theorem loop_simulates
    (bound : Nat)
    (position : State → Nat)
    (invariant : State → Prop)
    (result : Nat → State → Result)
    (follows :
      ∀ s n, invariant s → bound - position s ≤ n →
        (∃ t m,
          pass s = .value (.next t) ∧ n = m + 1 ∧ invariant t ∧
            position s < position t ∧ position t ≤ bound ∧
            result n s = result m t) ∨
          pass s = .value (.done (result n s)))
    {start : State}
    (initial : invariant start)
    {fuel n : Nat}
    (enough : bound - position start < fuel)
    (deep : bound - position start ≤ n) :
    loop pass fuel start = .value (result n start) := by
  induction fuel generalizing start n with
  | zero =>
      exact absurd enough (Nat.not_lt_zero _)
  | succ fuel inductionHypothesis =>
      rcases follows start n initial deep with
          ⟨t, m, moves, rfl, kept, further, within, same⟩ | ends
      · rw [loop_next moves, same]
        exact inductionHypothesis kept (by omega) (by omega)
      · exact loop_done ends fuel

end

end Loops
