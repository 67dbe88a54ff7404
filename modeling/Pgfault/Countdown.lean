import Pgfault.Transparency

namespace Pgfault

/-!
# Counting rows down

What the client sees behind a fault that cuts results, as a function of what is
read.  The budget of rows is loop state that only a `ReadyForQuery` takes away.
It counts the rows of one result set when this one is large enough, and else the
rows of all result sets of the query cycle together.
-/

/-- What becomes of a server frame, and of the budget. -/
structure Spent where
  written : Bool
  budget : Option Nat
  cut : Bool

/-- The budget at one server frame. -/
def spend (budget : Option Nat) : BackendTag → Spent
  | .readyForQuery => ⟨true, none, false⟩
  | .dataRow =>
      match budget with
      | none => ⟨true, none, false⟩
      | some 0 => ⟨false, some 0, true⟩
      | some (left + 1) => ⟨true, some left, left = 0⟩
  | _ => ⟨true, budget, false⟩

/-- Only a row that cuts the result can stay unwritten. -/
theorem spend_written
    (budget : Option Nat)
    (tag : BackendTag)
    (uncut : (spend budget tag).cut = false) :
    (spend budget tag).written = true := by
  cases tag with
  | dataRow =>
      rcases budget with _ | _ | left
      · rfl
      · cases uncut
      · rfl
  | _ =>
      rfl

/-- How a countdown ends: at a row, with the connection, or not yet. -/
inductive Ending where
  | cut
  | left
  | running
  deriving DecidableEq

/-- The server frames written behind a fault, and how the connection ends. -/
def countdown (budget : Option Nat) : List Input → List Frame × Ending
  | [] => ([], .running)
  | .client (.frame f) :: later =>
      if f.frontendTag = .terminate then ([], .left)
      else countdown budget later
  | .server (.frame f) :: later =>
      let spent := spend budget f.backendTag
      if spent.cut then
        (if spent.written then [f] else [], .cut)
      else
        let rest := countdown spent.budget later
        (f :: rest.1, rest.2)
  | _ :: _ => ([], .left)

/-- The countdown at a frame that is neither a row nor ready for a query. -/
theorem spend_other
    (budget : Option Nat)
    {tag : BackendTag}
    (noRow : tag ≠ .dataRow)
    (unready : tag ≠ .readyForQuery) :
    spend budget tag = ⟨true, budget, false⟩ := by
  cases tag with
  | dataRow =>
      exact absurd rfl noRow
  | readyForQuery =>
      exact absurd rfl unready
  | _ =>
      rfl

/-- Whether a server frame is a row of a result. -/
def isRow (f : Frame) : Bool :=
  f.backendTag == .dataRow

/--
An input while a result set is delivered: the server has not ended the result,
and the client neither closes nor sends `Terminate`.
-/
def WithinResult : Input → Prop
  | .client (.frame f) => f.frontendTag ≠ .terminate
  | .server (.frame f) =>
      f.backendTag ≠ .commandComplete ∧ f.backendTag ≠ .portalSuspended ∧
        f.backendTag ≠ .errorResponse ∧ f.backendTag ≠ .readyForQuery
  | _ => False

instance : (input : Input) → Decidable (WithinResult input)
  | .client (.frame f) =>
      inferInstanceAs (Decidable (f.frontendTag ≠ .terminate))
  | .server (.frame f) =>
      inferInstanceAs (Decidable (f.backendTag ≠ .commandComplete ∧
        f.backendTag ≠ .portalSuspended ∧ f.backendTag ≠ .errorResponse ∧
        f.backendTag ≠ .readyForQuery))
  | .client .eof => inferInstanceAs (Decidable False)
  | .client (.error _) => inferInstanceAs (Decidable False)
  | .server .eof => inferInstanceAs (Decidable False)
  | .server (.error _) => inferInstanceAs (Decidable False)

/-- Where a result is cut: behind the last row shown, or before the first row. -/
structure CutAt (rows : Nat) (shown hidden : List Frame) : Prop where
  rows_eq : (shown.filter isRow).length = rows
  before :
    rows = 0 → ∃ row, hidden.head? = some row ∧ isRow row = true
  behind :
    rows ≠ 0 → ∃ row, shown.getLast? = some row ∧ isRow row = true

theorem CutAt.cons
    {rows : Nat}
    {shown hidden : List Frame}
    (cut : CutAt rows shown hidden)
    {f : Frame}
    (other : isRow f = false) :
    CutAt rows (f :: shown) hidden := by
  refine ⟨by simp [other, cut.rows_eq], cut.before, ?_⟩
  intro some
  obtain ⟨row, last, isLast⟩ := cut.behind some
  exact ⟨row, by simp [List.getLast?_cons, last], isLast⟩

theorem CutAt.cons_row
    {left : Nat}
    {shown hidden : List Frame}
    (cut : CutAt (left + 1) shown hidden)
    {f : Frame}
    (row : isRow f = true) :
    CutAt (left + 2) (f :: shown) hidden := by
  refine ⟨by simp [row, cut.rows_eq], nofun, ?_⟩
  intro _
  obtain ⟨last, isLast, counts⟩ := cut.behind (Nat.succ_ne_zero left)
  exact ⟨last, by simp [List.getLast?_cons, isLast], counts⟩

/-- A result set with enough rows is cut at the last row of the budget. -/
theorem countdown_cut
    {rows : Nat}
    {span : List Input}
    (within : ∀ input ∈ span, WithinResult input)
    (enough : max rows 1 ≤ ((Relay.serverFrames span).filter isRow).length)
    (later : List Input) :
    ∃ shown hidden,
      Relay.serverFrames span = shown ++ hidden ∧
        countdown (some rows) (span ++ later) = (shown, .cut) ∧
        CutAt rows shown hidden := by
  induction span generalizing rows with
  | nil =>
      simp [Relay.serverFrames] at enough
  | cons input rest inductionHypothesis =>
      have now := within input (by simp)
      have next := fun input member => within input (List.mem_cons_of_mem _ member)
      rcases input with (f | _ | _) | (f | _ | _)
      · obtain ⟨shown, hidden, shape, counted, cut⟩ :=
          inductionHypothesis next enough
        refine ⟨shown, hidden, shape, ?_, cut⟩
        rw [List.cons_append, countdown, if_neg now]
        exact counted
      · exact now.elim
      · exact now.elim
      · change max rows 1 ≤ ((f :: Relay.serverFrames rest).filter isRow).length
          at enough
        change ∃ shown hidden, f :: Relay.serverFrames rest = _ ∧ _
        cases row : isRow f with
        | false =>
            rw [List.filter_cons_of_neg (by simp [row])] at enough
            obtain ⟨shown, hidden, shape, counted, cut⟩ :=
              inductionHypothesis next enough
            refine ⟨f :: shown, hidden, by rw [shape]; rfl, ?_, cut.cons row⟩
            have noRow : f.backendTag ≠ .dataRow := by simpa [isRow] using row
            simp only [List.cons_append, countdown,
              spend_other (some rows) noRow now.2.2.2, Bool.false_eq_true,
              if_false, counted]
        | true =>
            have tag : f.backendTag = .dataRow := by simpa [isRow] using row
            rw [List.filter_cons_of_pos row, List.length_cons] at enough
            rcases rows with _ | _ | left
            · refine ⟨[], _, rfl, ?_, ⟨rfl, fun _ => ⟨f, rfl, row⟩, absurd rfl⟩⟩
              simp [countdown, tag, spend]
            · refine ⟨[f], _, rfl, ?_,
                ⟨by simp [row], fun zero => absurd zero (Nat.succ_ne_zero 0),
                  fun _ => ⟨f, rfl, row⟩⟩⟩
              simp [countdown, tag, spend]
            · obtain ⟨shown, hidden, shape, counted, cut⟩ :=
                @inductionHypothesis (left + 1) next (by omega)
              refine ⟨f :: shown, hidden, by rw [shape]; rfl, ?_,
                cut.cons_row row⟩
              simp [countdown, tag, spend, counted]
      · exact now.elim
      · exact now.elim

/-- Whether an input ends the loop by itself. -/
def leaves : Input → Bool
  | .client (.frame f) => f.frontendTag == .terminate
  | .server (.frame _) => false
  | _ => true

/-- The inputs read before one of them ends the loop. -/
def heard (inputs : List Input) : List Input :=
  inputs.takeWhile fun input => !leaves input

/-- The rows read before the first server frame with some tag. -/
def rowsBefore (tag : BackendTag) (inputs : List Input) : Nat :=
  (((Relay.serverFrames (heard inputs)).takeWhile fun f =>
    f.backendTag != tag).filter isRow).length

/-! ## The cases of an input -/

/-- An input ends the loop, or is a frame of one of the sides. -/
theorem input_cases (input : Input) :
    leaves input = true ∨
      (∃ f, input = .client (.frame f) ∧ f.frontendTag ≠ .terminate) ∨
      ∃ f, input = .server (.frame f) := by
  rcases input with (f | _ | _) | (f | _ | _)
  · by_cases terminates : f.frontendTag = .terminate
    · exact Or.inl (by simp [leaves, terminates])
    · exact Or.inr (Or.inl ⟨f, rfl, terminates⟩)
  · exact Or.inl rfl
  · exact Or.inl rfl
  · exact Or.inr (Or.inr ⟨f, rfl⟩)
  · exact Or.inl rfl
  · exact Or.inl rfl

theorem countdown_leaves
    {input : Input}
    (ends : leaves input = true)
    (budget : Option Nat)
    (later : List Input) :
    countdown budget (input :: later) = ([], .left) := by
  rcases input with (f | _ | _) | (f | _ | _)
  · exact if_pos (by simpa [leaves] using ends)
  · rfl
  · rfl
  · cases ends
  · rfl
  · rfl

theorem countdown_client
    {f : Frame}
    (stays : f.frontendTag ≠ .terminate)
    (budget : Option Nat)
    (later : List Input) :
    countdown budget (.client (.frame f) :: later) = countdown budget later :=
  if_neg stays

theorem heard_leaves
    {input : Input}
    (ends : leaves input = true)
    (later : List Input) :
    heard (input :: later) = [] := by
  simp [heard, ends]

theorem heard_client
    {f : Frame}
    (stays : f.frontendTag ≠ .terminate)
    (later : List Input) :
    Relay.serverFrames (heard (.client (.frame f) :: later)) =
      Relay.serverFrames (heard later) := by
  simp [heard, leaves, stays, Relay.serverFrames]

theorem heard_server
    (f : Frame)
    (later : List Input) :
    Relay.serverFrames (heard (.server (.frame f) :: later)) =
      f :: Relay.serverFrames (heard later) :=
  rfl

theorem rowsBefore_server
    (tag : BackendTag)
    (f : Frame)
    (later : List Input) :
    rowsBefore tag (.server (.frame f) :: later) =
      if f.backendTag = tag then 0
      else (if isRow f then 1 else 0) + rowsBefore tag later := by
  unfold rowsBefore
  rw [heard_server, List.takeWhile_cons]
  by_cases ends : f.backendTag = tag
  · simp [ends]
  · cases row : isRow f with
    | true =>
        simp [ends, row, Nat.add_comm]
    | false =>
        simp [ends, row]

/-! ## Countdowns that cut nothing -/

/-- Without a budget nothing is cut. -/
theorem countdown_unset (inputs : List Input) :
    (countdown none inputs).2 ≠ .cut := by
  induction inputs with
  | nil =>
      nofun
  | cons input later inductionHypothesis =>
      rcases input_cases input with ends | ⟨f, rfl, stays⟩ | ⟨f, rfl⟩
      · rw [countdown_leaves ends]
        nofun
      · rw [countdown_client stays]
        exact inductionHypothesis
      · have unset : spend none f.backendTag = ⟨true, none, false⟩ := by
          cases f.backendTag <;> rfl
        simpa only [countdown, unset, Bool.false_eq_true, if_false] using
          inductionHypothesis

/-- A countdown that cuts nothing writes everything it reads. -/
theorem countdown_frames
    {budget : Option Nat}
    {inputs : List Input}
    (uncut : (countdown budget inputs).2 ≠ .cut) :
    (countdown budget inputs).1 = Relay.serverFrames (heard inputs) := by
  induction inputs generalizing budget with
  | nil =>
      rfl
  | cons input later inductionHypothesis =>
      rcases input_cases input with ends | ⟨f, rfl, stays⟩ | ⟨f, rfl⟩
      · rw [countdown_leaves ends, heard_leaves ends]
        rfl
      · rw [countdown_client stays] at uncut ⊢
        rw [heard_client stays]
        exact inductionHypothesis uncut
      · rw [heard_server]
        simp only [countdown] at uncut ⊢
        cases cuts : (spend budget f.backendTag).cut with
        | true =>
            simp [cuts] at uncut
        | false =>
            simp only [cuts, Bool.false_eq_true, if_false] at uncut ⊢
            rw [inductionHypothesis uncut]

/-- The budget counts the rows up to the next `ReadyForQuery`. -/
theorem countdown_cut_iff
    {rows : Nat}
    {inputs : List Input} :
    (countdown (some rows) inputs).2 = .cut ↔
      max rows 1 ≤ rowsBefore .readyForQuery inputs := by
  have never (rows : Nat) : ¬ max rows 1 ≤ 0 := by omega
  have stays : Ending.running ≠ .cut := by decide
  have leaves : Ending.left ≠ .cut := by decide
  induction inputs generalizing rows with
  | nil =>
      exact iff_of_false stays (never rows)
  | cons input later inductionHypothesis =>
      rcases input_cases input with ends | ⟨f, rfl, stays⟩ | ⟨f, rfl⟩
      · rw [countdown_leaves ends, rowsBefore, heard_leaves ends]
        exact iff_of_false leaves (never rows)
      · rw [countdown_client stays, rowsBefore, heard_client stays]
        exact inductionHypothesis
      · rw [rowsBefore_server]
        by_cases ready : f.backendTag = .readyForQuery
        · rw [if_pos ready]
          refine iff_of_false ?_ (never rows)
          simp only [countdown, ready, spend, Bool.false_eq_true, if_false]
          exact countdown_unset later
        · rw [if_neg ready]
          cases row : isRow f with
          | false =>
              have noRow : f.backendTag ≠ .dataRow := by
                simpa [isRow] using row
              simp only [countdown, spend_other (some rows) noRow ready,
                Bool.false_eq_true, if_false, Nat.zero_add]
              exact inductionHypothesis
          | true =>
              have tag : f.backendTag = .dataRow := by
                simpa [isRow] using row
              rw [if_pos rfl]
              rcases rows with _ | _ | left
              · refine iff_of_true ?_ (by omega)
                simp [countdown, tag, spend]
              · refine iff_of_true ?_ (by omega)
                simp [countdown, tag, spend]
              · have next := @inductionHypothesis (left + 1)
                simp only [countdown, tag, spend, Nat.succ_ne_zero,
                  decide_false, Bool.false_eq_true, if_false, next]
                omega

end Pgfault
