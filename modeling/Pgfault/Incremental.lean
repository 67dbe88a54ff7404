import Mathlib.Data.List.Basic

namespace Incremental

/-!
# Incremental decoders

A decoder looks at the symbols that have arrived so far.  It takes one value off
the front, reports a problem, or waits for more.  What it has decided does not
change when more symbols arrive, so what it takes off does not depend on how the
symbols came in.
-/

variable {Symbol Value Problem : Type}

/-- One attempt: the answer and the symbols that stay in the buffer. -/
abbrev Attempt (Symbol Value Problem : Type) :=
  Except Problem (Option Value) × List Symbol

/-- A decoder whose decisions are final. -/
structure Decoder (Symbol Value Problem : Type) where
  attempt : List Symbol → Attempt Symbol Value Problem
  /-- The symbols a value stands for. -/
  raw : Value → List Symbol
  /-- A value takes its symbols off the front, and there are some. -/
  takes :
    ∀ {buffer value rest},
      attempt buffer = (.ok (some value), rest) →
      raw value ++ rest = buffer ∧ raw value ≠ []
  /-- Without a value the buffer stays. -/
  waits :
    ∀ {buffer rest}, attempt buffer = (.ok none, rest) → rest = buffer
  /-- A problem leaves the buffer alone. -/
  fails :
    ∀ {buffer problem rest},
      attempt buffer = (.error problem, rest) → rest = buffer
  /-- More symbols do not change a value. -/
  value_append :
    ∀ {buffer value rest} (more : List Symbol),
      attempt buffer = (.ok (some value), rest) →
      attempt (buffer ++ more) = (.ok (some value), rest ++ more)
  /-- More symbols do not repair a problem. -/
  error_append :
    ∀ {buffer problem rest} (more : List Symbol),
      attempt buffer = (.error problem, rest) →
      attempt (buffer ++ more) = (.error problem, rest ++ more)

/-- Everything a decoder takes off a buffer. -/
structure Drained (Symbol Value Problem : Type) where
  values : List Value
  problem : Option Problem
  rest : List Symbol

namespace Decoder

variable (d : Decoder Symbol Value Problem)

/-- Take at most `fuel` values off a buffer. -/
def drainLoop : Nat → List Symbol → Drained Symbol Value Problem
  | 0, buffer => ⟨[], none, buffer⟩
  | fuel + 1, buffer =>
      match d.attempt buffer with
      | (.ok (some value), rest) =>
          let later := drainLoop fuel rest
          { later with values := value :: later.values }
      | (.ok none, rest) => ⟨[], none, rest⟩
      | (.error problem, rest) => ⟨[], some problem, rest⟩

/-- Apply a decoder until it waits or fails. -/
def drain (buffer : List Symbol) : Drained Symbol Value Problem :=
  d.drainLoop (buffer.length + 1) buffer

variable {d}

/-- A value makes the buffer shorter. -/
theorem length_lt_of_value
    {buffer rest : List Symbol}
    {value : Value}
    (taken : d.attempt buffer = (.ok (some value), rest)) :
    rest.length < buffer.length := by
  obtain ⟨split, nonempty⟩ := d.takes taken
  have positive := List.length_pos_of_ne_nil nonempty
  rw [← split, List.length_append]
  omega

/-- Fuel beyond the length of the buffer changes nothing. -/
theorem drainLoop_fuel
    {fuel other : Nat}
    {buffer : List Symbol}
    (enough : buffer.length < fuel)
    (enoughToo : buffer.length < other) :
    d.drainLoop fuel buffer = d.drainLoop other buffer := by
  induction fuel generalizing other buffer with
  | zero =>
      omega
  | succ fuel inductionHypothesis =>
      cases other with
      | zero =>
          omega
      | succ other =>
          unfold drainLoop
          match taken : d.attempt buffer with
          | (.ok (some value), rest) =>
              have shorter := length_lt_of_value taken
              have same : d.drainLoop fuel rest = d.drainLoop other rest :=
                inductionHypothesis (by omega) (by omega)
              simp only [same]
          | (.ok none, rest) =>
              rfl
          | (.error problem, rest) =>
              rfl

/-- Draining goes on behind a value. -/
theorem drain_of_value
    {buffer rest : List Symbol}
    {value : Value}
    (taken : d.attempt buffer = (.ok (some value), rest)) :
    d.drain buffer =
      { d.drain rest with values := value :: (d.drain rest).values } := by
  have shorter := length_lt_of_value taken
  have unfolded :
      d.drain buffer =
        { d.drainLoop buffer.length rest with
          values := value :: (d.drainLoop buffer.length rest).values } := by
    simp only [drain, drainLoop, taken]
  have same : d.drainLoop buffer.length rest = d.drain rest :=
    drainLoop_fuel shorter (Nat.lt_succ_self _)
  rw [unfolded, same]

/-- Draining stops where the decoder waits. -/
theorem drain_of_wait
    {buffer rest : List Symbol}
    (waiting : d.attempt buffer = (.ok none, rest)) :
    d.drain buffer = ⟨[], none, buffer⟩ := by
  have stays := d.waits waiting
  subst stays
  simp only [drain, drainLoop, waiting]

/-- Draining stops where the decoder fails. -/
theorem drain_of_error
    {buffer rest : List Symbol}
    {problem : Problem}
    (failed : d.attempt buffer = (.error problem, rest)) :
    d.drain buffer = ⟨[], some problem, buffer⟩ := by
  have stays := d.fails failed
  subst stays
  simp only [drain, drainLoop, failed]

/-- Induction along the values a decoder takes off. -/
theorem drain_induction
    {motive : List Symbol → Prop}
    (value :
      ∀ buffer value rest,
        d.attempt buffer = (.ok (some value), rest) →
        motive rest → motive buffer)
    (wait :
      ∀ buffer, d.attempt buffer = (.ok none, buffer) → motive buffer)
    (error :
      ∀ buffer problem,
        d.attempt buffer = (.error problem, buffer) → motive buffer)
    (buffer : List Symbol) :
    motive buffer := by
  match taken : d.attempt buffer with
  | (.ok (some found), rest) =>
      have shorter := length_lt_of_value taken
      exact value buffer found rest taken
        (drain_induction value wait error rest)
  | (.ok none, rest) =>
      have stays := d.waits taken
      subst stays
      exact wait rest taken
  | (.error problem, rest) =>
      have stays := d.fails taken
      subst stays
      exact error rest problem taken
  termination_by buffer.length

end Decoder

end Incremental
