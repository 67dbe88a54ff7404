import Mathlib.Data.List.Induction

namespace Machine

/-!
# Runs of a deterministic machine

A machine is a step function on states.  A run feeds it a list of inputs, and
what holds along every run is proved one input at a time, from the first input
on.  Sequences of several machines are merged by `Interleaving`.
-/

variable {State Input : Type}

/-- Feed a list of inputs to a machine. -/
def run (step : State → Input → State) (s : State) (inputs : List Input) :
    State :=
  inputs.foldl step s

section

variable (step : State → Input → State) (s : State)

@[simp] theorem run_nil :
    run step s [] = s := rfl

@[simp] theorem run_cons
    (input : Input)
    (later : List Input) :
    run step s (input :: later) = run step (step s input) later := rfl

@[simp] theorem run_append
    (earlier later : List Input) :
    run step s (earlier ++ later) = run step (run step s earlier) later :=
  List.foldl_append

end

/--
What holds before the first input and is passed on by every step, given the
inputs so far, holds after every run.
-/
theorem run_induction
    {step : State → Input → State}
    {s : State}
    {motive : List Input → State → Prop}
    (initial : motive [] s)
    (passes :
      ∀ before input,
        motive before (run step s before) →
        motive (before ++ [input]) (step (run step s before) input))
    (inputs : List Input) :
    motive inputs (run step s inputs) := by
  induction inputs using List.reverseRecOn with
  | nil =>
      exact initial
  | append_singleton before input inductionHypothesis =>
      rw [run_append]
      exact passes before input inductionHypothesis

/-- An invariant of single steps is an invariant of runs. -/
theorem run_invariant
    {step : State → Input → State}
    {invariant : State → Prop}
    (keeps : ∀ s input, invariant s → invariant (step s input))
    {s : State}
    (initial : invariant s)
    (inputs : List Input) :
    invariant (run step s inputs) := by
  induction inputs generalizing s with
  | nil =>
      exact initial
  | cons input later inductionHypothesis =>
      exact inductionHypothesis (keeps s input initial)

/-! ## Permitted runs -/

/-- Every input of a run is permitted when it comes. -/
def Permitted
    (permits : State → Input → Prop)
    (step : State → Input → State)
    (s : State) : List Input → Prop
  | [] => True
  | input :: later =>
      permits s input ∧ Permitted permits step (step s input) later

instance decidablePermitted
    {permits : State → Input → Prop}
    {step : State → Input → State}
    [decides : (s : State) → (input : Input) → Decidable (permits s input)] :
    (s : State) →
    (inputs : List Input) →
    Decidable (Permitted permits step s inputs)
  | _, [] => inferInstanceAs (Decidable True)
  | s, input :: later =>
      @instDecidableAnd _ _ (decides s input)
        (decidablePermitted (step s input) later)

theorem permitted_append
    {permits : State → Input → Prop}
    {step : State → Input → State}
    {s : State}
    {earlier later : List Input} :
    Permitted permits step s (earlier ++ later) ↔
      Permitted permits step s earlier ∧
        Permitted permits step (run step s earlier) later := by
  induction earlier generalizing s with
  | nil =>
      simp [Permitted]
  | cons input rest inductionHypothesis =>
      simp [Permitted, inductionHypothesis, and_assoc]

/-- A run that meets two conditions meets both at every input. -/
theorem Permitted.and
    {permits given : State → Input → Prop}
    {step : State → Input → State}
    {s : State}
    {inputs : List Input}
    (permitted : Permitted permits step s inputs)
    (holds : Permitted given step s inputs) :
    Permitted (fun s input => permits s input ∧ given s input) step s
      inputs := by
  induction inputs generalizing s with
  | nil =>
      trivial
  | cons input later inductionHypothesis =>
      exact ⟨⟨permitted.1, holds.1⟩,
        inductionHypothesis permitted.2 holds.2⟩

/-- What permitted steps pass on holds after every permitted run. -/
theorem permitted_invariant
    {permits : State → Input → Prop}
    {step : State → Input → State}
    {invariant : State → Prop}
    (keeps :
      ∀ s input, invariant s → permits s input → invariant (step s input))
    {s : State}
    (initial : invariant s)
    {inputs : List Input}
    (permitted : Permitted permits step s inputs) :
    invariant (run step s inputs) := by
  induction inputs generalizing s with
  | nil =>
      exact initial
  | cons input later inductionHypothesis =>
      exact inductionHypothesis (keeps s input initial permitted.1)
        permitted.2

/--
Along a permitted run, a condition that gives another one at every state that
keeps the invariant gives it all the way.
-/
theorem permitted_imp
    {permits given wanted : State → Input → Prop}
    {step : State → Input → State}
    {invariant : State → Prop}
    (keeps :
      ∀ s input, invariant s → permits s input → invariant (step s input))
    (gives :
      ∀ s input,
        invariant s → permits s input → given s input → wanted s input)
    {s : State}
    (initial : invariant s)
    {inputs : List Input}
    (permitted : Permitted permits step s inputs)
    (holds : Permitted given step s inputs) :
    Permitted wanted step s inputs := by
  induction inputs generalizing s with
  | nil =>
      trivial
  | cons input later inductionHypothesis =>
      exact ⟨gives s input initial permitted.1 holds.1,
        inductionHypothesis (keeps s input initial permitted.1) permitted.2
          holds.2⟩

/-! ## Interleavings -/

/-- Sequences merged into one that keeps the order of each. -/
inductive Interleaving {α : Type} : List (List α) → List α → Prop where
  | done {sources : List (List α)} (ended : ∀ source ∈ sources, source = []) :
      Interleaving sources []
  | take {sources : List (List α)} {i : Nat} {x : α} {rest later : List α}
      (next : sources[i]? = some (x :: rest))
      (behind : Interleaving (sources.set i rest) later) :
      Interleaving sources (x :: later)

namespace Interleaving

variable {α : Type}

/-- Everything in a merged sequence comes from one of its parts. -/
theorem exists_source
    {sources : List (List α)}
    {merged : List α}
    (interleaving : Interleaving sources merged)
    {x : α}
    (member : x ∈ merged) :
    ∃ source ∈ sources, x ∈ source := by
  induction interleaving with
  | done ended =>
      simp at member
  | @take sources i y rest later next behind inductionHypothesis =>
      have inside := List.mem_of_getElem? next
      rcases List.mem_cons.mp member with rfl | isLater
      · exact ⟨_, inside, List.mem_cons_self⟩
      · obtain ⟨source, isSource, found⟩ := inductionHypothesis isLater
        rcases List.mem_or_eq_of_mem_set isSource with old | rfl
        · exact ⟨source, old, found⟩
        · exact ⟨_, inside, List.mem_cons_of_mem _ found⟩

/-- A part that has ended plays no part. -/
theorem nil_cons
    {sources : List (List α)}
    {merged : List α}
    (interleaving : Interleaving sources merged) :
    Interleaving ([] :: sources) merged := by
  induction interleaving with
  | done ended =>
      refine .done ?_
      intro source member
      rcases List.mem_cons.mp member with rfl | old
      · rfl
      · exact ended source old
  | @take sources i x rest later next behind inductionHypothesis =>
      exact .take (i := i + 1) (by simpa using next)
        (by simpa using inductionHypothesis)

/-- One part in front of the others. -/
theorem append
    {source : List α}
    {sources : List (List α)}
    {merged : List α}
    (interleaving : Interleaving sources merged) :
    Interleaving (source :: sources) (source ++ merged) := by
  induction source with
  | nil =>
      exact interleaving.nil_cons
  | cons x rest inductionHypothesis =>
      exact .take (i := 0) rfl inductionHypothesis

end Interleaving

end Machine
