import Pgfault.Effects
import Pgfault.FirstParts

namespace Pgfault

open ConnectionState FirstParts

/-!
# Where the loop can break off

Every effect of the loop is an operation that can fail, and one that fails ends
the connection at once: what has been done is a first part of `runEffects`.  So a
property of every first part holds whatever fails.  `TurnRules` put it together
from what `apply` and the single writes do.

A fault is in the trace before its socket is severed, a statement is on its way
before it is reported as forwarded, and behind a severed socket nothing is
written.  `loop_ends` lists the ways a loop can end, a failing operation included.
-/

namespace Relay

section

variable (parseDuration : String → Except String Nat)

/-- The loop goes on behind these events. -/
def GoesOn (r : Relay) (events : List Event) : Prop :=
  (r.apply parseDuration events).1.exit = none ∧
    (r.apply parseDuration events).2.disconnect = false

/-- What must be known of the pieces of a turn. -/
structure TurnRules (holds level : List Effect → Prop) : Prop
    extends Rules holds level where
  applies :
    ∀ (r : Relay) (events : List Event),
      (∀ e ∈ events, e.event ≠ "query.forwarded") →
      Piece holds level (r.GoesOn parseDuration events)
        (r.applyEffects parseDuration events)
  passes :
    ∀ f : Frame,
      ¬ (f.frontendTag = .query ∨ f.frontendTag = .execute) →
      Piece holds level True [.toServer f]
  forwards :
    ∀ (r : Relay) (f : Frame) (e : Event),
      f.frontendTag = .query ∨ f.frontendTag = .execute →
      e.event = "query.forwarded" →
      Piece holds level (r.GoesOn parseDuration [e])
        (.toServer f :: r.applyEffects parseDuration [e])
  writes : ∀ d, Piece holds level True [.toClient d]
  cuts : ∀ r : Relay, Always holds r.cutEffects
  closes : ∀ side, Always holds [.sever side .close]

variable {parseDuration}
variable {holds level : List Effect → Prop}

namespace TurnRules

theorem forward
    (rules : TurnRules parseDuration holds level)
    (r : Relay)
    (f : Frame) :
    Piece holds level ((r.forward parseDuration f).exit = none)
      (r.forwardEffects parseDuration f) := by
  unfold forwardEffects
  split
  · rename_i isStatement
    refine (rules.forwards
      { r with
        toServer := r.toServer ++ [f]
        state := r.state.forwarded.2 }
      f r.state.forwarded.1 isStatement rfl).of_imp ?_
    intro running
    unfold Relay.forward at running
    simp only [if_pos isStatement] at running
    unfold GoesOn
    generalize
      apply parseDuration
        { r with
          toServer := r.toServer ++ [f]
          state := r.state.forwarded.2 }
        [r.state.forwarded.1] = applied at running ⊢
    split at running
    · cases running
    · rename_i stays
      exact ⟨running, by simpa [running] using stays⟩
  · rename_i other
    exact (rules.passes f other).of_imp fun _ => trivial

theorem clientFrame
    (rules : TurnRules parseDuration holds level)
    (sha256 : Bytes → String)
    (r : Relay)
    (f : Frame) :
    Piece holds level ((r.clientFrame sha256 parseDuration f).exit = none)
      (r.clientEffects sha256 parseDuration f) := by
  have unlike :
      ∀ e ∈ (r.state.frontend sha256 f).1, e.event ≠ "query.forwarded" := by
    intro e member isForwarded
    have named :=
      receive_clientNames sha256 r.state f e.event (mem_frontend member).1
    rw [isForwarded] at named
    exact absurd named (by decide)
  have first :=
    rules.applies { r with state := (r.state.frontend sha256 f).2 }
      (r.state.frontend sha256 f).1 unlike
  rcases clientEffects_cases sha256 parseDuration r f with
      ⟨observed, goesOn⟩ | ⟨whole, running, stays, goesOn⟩
  · rw [observed]
    exact first.of_imp goesOn
  · rw [whole]
    exact rules.join first ⟨running, stays⟩
      ((rules.forward _ f).of_imp goesOn)

theorem serverFrame
    (rules : TurnRules parseDuration holds level)
    (r : Relay)
    (f : Frame) :
    Piece holds level ((r.serverFrame parseDuration f).exit = none)
      (r.serverEffects parseDuration f) := by
  have unlike :
      ∀ e ∈ (r.state.backend f).1, e.event ≠ "query.forwarded" := by
    intro e member isForwarded
    have named :=
      backendNames_serverNames r.state f e.event (mem_backend member).1
    rw [isForwarded] at named
    exact absurd named (by decide)
  have first :=
    rules.applies
      { r with
        state := (r.state.backend f).2
        received := r.received + 1 }
      (r.state.backend f).1 unlike
  rcases serverEffects_cases parseDuration r f with
      ⟨observed, goesOn⟩ |
        ⟨running, stays, ds, ending, whole, isEnding⟩
  · rw [observed]
    exact first.of_imp goesOn
  · rw [whole]
    refine rules.join first ⟨running, stays⟩
      (rules.join (rules.map rules.writes ds) trivial ?_)
    rcases isEnding with rfl | ⟨exited, last, rfl⟩
    · exact rules.empty
    · refine ⟨rules.cuts last, fun unfinished => ?_⟩
      rw [exited] at unfinished
      cases unfinished

theorem step
    (rules : TurnRules parseDuration holds level)
    (sha256 : Bytes → String)
    (r : Relay)
    (input : Input) :
    Piece holds level ((r.step sha256 parseDuration input).exit = none)
      (r.effects sha256 parseDuration input) := by
  unfold effects Relay.step
  split
  · exact rules.empty
  · cases input with
    | client read =>
        cases read with
        | frame f =>
            exact rules.clientFrame sha256 r f
        | eof =>
            exact ⟨rules.closes .upstream, fun running => by cases running⟩
        | error message =>
            exact rules.empty
    | server read =>
        cases read with
        | frame f =>
            exact rules.serverFrame r f
        | eof =>
            exact ⟨rules.closes .frontend, fun running => by cases running⟩
        | error message =>
            exact rules.empty

/-- Every first part of what a run does. -/
theorem run
    (rules : TurnRules parseDuration holds level)
    (sha256 : Bytes → String)
    (r : Relay)
    (inputs : List Input) :
    Piece holds level ((r.run sha256 parseDuration inputs).exit = none)
      (r.runEffects sha256 parseDuration inputs) := by
  induction inputs using List.reverseRecOn with
  | nil =>
      exact rules.empty
  | append_singleton earlier input inductionHypothesis =>
      rw [runEffects_concat, run_concat]
      cases exits : (r.run sha256 parseDuration earlier).exit with
      | some exit =>
          have gone :
              (r.run sha256 parseDuration earlier).exit.isSome = true := by
            rw [exits]
            rfl
          have stays :
              (r.run sha256 parseDuration earlier).step sha256 parseDuration
                  input =
                r.run sha256 parseDuration earlier := if_pos gone
          rw [effects_of_exit sha256 parseDuration gone, List.append_nil, stays]
          exact inductionHypothesis
      | none =>
          exact rules.join inductionHypothesis exits
            (rules.step sha256 (r.run sha256 parseDuration earlier) input)

end TurnRules

/-! ## Rules for single records -/

variable (parseDuration) in
/-- What must be known of the records of `apply` and of the writes. -/
structure RecordRules (holds level : List Effect → Prop) : Prop
    extends Rules holds level where
  notes :
    ∀ e : Event, e.event ≠ "query.forwarded" →
      Piece holds level True [.record (.semantic e)]
  fires :
    ∀ (e : Event) (s : Scenario),
      Piece holds level ((fireEffects parseDuration e s).2 = false)
        (fireEffects parseDuration e s).1
  passes :
    ∀ f : Frame,
      ¬ (f.frontendTag = .query ∨ f.frontendTag = .execute) →
      Piece holds level True [.toServer f]
  reports :
    ∀ (f : Frame) (e : Event),
      f.frontendTag = .query ∨ f.frontendTag = .execute →
      e.event = "query.forwarded" →
      Piece holds level True [.toServer f, .record (.semantic e)]
  writes : ∀ d, Piece holds level True [.toClient d]
  cuts : ∀ r : Relay, Always holds r.cutEffects
  closes : ∀ side, Always holds [.sever side .close]

namespace RecordRules

theorem matchers
    (rules : RecordRules parseDuration holds level)
    (e : Event)
    (matchers : List Matcher) :
    Piece holds level ((matcherEffects parseDuration e matchers).2 = false)
      (matcherEffects parseDuration e matchers).1 := by
  induction matchers with
  | nil =>
      exact rules.empty
  | cons m rest inductionHypothesis =>
      have fired :
          Piece holds level
            ((if (m.observe e).1 = true then
                fireEffects parseDuration e m.scenario
              else ([], false)).2 = false)
            (if (m.observe e).1 = true then
              fireEffects parseDuration e m.scenario
            else ([], false)).1 := by
        split
        · exact rules.fires e m.scenario
        · exact rules.empty
      simp only [matcherEffects]
      generalize
        (if (m.observe e).1 = true then
          fireEffects parseDuration e m.scenario
        else ([], false)) = one at fired ⊢
      split
      · exact fired
      · rename_i unfailed
        exact rules.join fired (by simpa using unfailed) inductionHypothesis

theorem events
    (rules : RecordRules parseDuration holds level)
    {events : List Event}
    (unlike : ∀ e ∈ events, e.event ≠ "query.forwarded")
    (matchers : List Matcher) :
    Piece holds level ((eventEffects parseDuration events matchers).2 = false)
      (eventEffects parseDuration events matchers).1 := by
  induction events generalizing matchers with
  | nil =>
      exact rules.empty
  | cons e rest inductionHypothesis =>
      obtain ⟨first, later⟩ := List.forall_mem_cons.mp unlike
      have noted := rules.notes e first
      have shown := rules.matchers e matchers
      simp only [eventEffects]
      split
      · refine ⟨(rules.join noted trivial shown).all, fun calm => ?_⟩
        cases calm
      · rename_i unfailed
        exact rules.join noted trivial
          (rules.join shown (by simpa using unfailed)
            (inductionHypothesis later _))

theorem turns (rules : RecordRules parseDuration holds level) :
    TurnRules parseDuration holds level where
  toRules := rules.toRules
  applies r events unlike := by
    refine (rules.events unlike r.matchers).of_imp fun goesOn => ?_
    rw [← apply_failed, goesOn.1]
    rfl
  passes := rules.passes
  forwards r f e isStatement isForwarded := by
    have sent := rules.reports f e isStatement isForwarded
    have shown := rules.matchers e r.matchers
    have whole :
        (.toServer f :: r.applyEffects parseDuration [e] : List Effect) =
          [.toServer f, .record (.semantic e)] ++
            (matcherEffects parseDuration e r.matchers).1 := by
      simp only [applyEffects, eventEffects]
      split <;> simp
    rw [whole]
    refine (rules.join sent trivial shown).of_imp fun goesOn => ?_
    have failed := apply_failed parseDuration r [e]
    rw [goesOn.1] at failed
    simp only [eventEffects] at failed
    split at failed
    · cases failed
    · rename_i unfailed
      simpa using unfailed
  writes := rules.writes
  cuts := rules.cuts
  closes := rules.closes

end RecordRules

end

/-! ## Sockets -/

/-- Exactly the sockets of the recorded faults have been severed. -/
def Even (es : List Effect) : Prop :=
  Effect.severs es = Trace.severed (Effect.records es)

/-- The sockets of the recorded faults have been severed, up to some point. -/
def RecordedFirst (es : List Effect) : Prop :=
  Effect.severs es <+: Trace.severed (Effect.records es) ∨
    ∃ closing,
      Effect.severs es = Trace.severed (Effect.records es) ++ [closing]

theorem RecordedFirst.behind
    {es later : List Effect}
    (even : Even es)
    (first : RecordedFirst later) :
    RecordedFirst (es ++ later) := by
  unfold RecordedFirst
  rw [Effect.severs_append, Effect.records_append, Trace.severed_append, even]
  rcases first with inside | ⟨closing, beyond⟩
  · exact Or.inl ((List.prefix_append_right_inj _).mpr inside)
  · exact Or.inr ⟨closing, by rw [beyond, List.append_assoc]⟩

/-- The statements written to the server. -/
def statements (es : List Effect) : List Frame :=
  (Effect.sent es).filter fun f =>
    f.frontendTag = .query ∨ f.frontendTag = .execute

/-- The statements recorded as forwarded. -/
def forwards (es : List Effect) : List Event :=
  (Trace.semantics (Effect.records es)).filter fun e =>
    e.event = "query.forwarded"

/-- Every statement that was written has been recorded. -/
def Reported (es : List Effect) : Prop :=
  (forwards es).length = (statements es).length

/-- Every recorded statement has been written, and at most one is unrecorded. -/
def WrittenFirst (es : List Effect) : Prop :=
  (forwards es).length ≤ (statements es).length ∧
    (statements es).length ≤ (forwards es).length + 1

theorem Reported.writtenFirst {es : List Effect} (reported : Reported es) :
    WrittenFirst es :=
  ⟨Nat.le_of_eq reported, by rw [reported]; exact Nat.le_succ _⟩

theorem statements_append (es later : List Effect) :
    statements (es ++ later) = statements es ++ statements later := by
  rw [statements, Effect.sent_append, List.filter_append]
  rfl

theorem forwards_append (es later : List Effect) :
    forwards (es ++ later) = forwards es ++ forwards later := by
  rw [forwards, Effect.records_append, Trace.semantics_append,
    List.filter_append]
  rfl

theorem Reported.append
    {es later : List Effect}
    (first : Reported es)
    (second : Reported later) :
    Reported (es ++ later) := by
  unfold Reported at first second ⊢
  rw [statements_append, forwards_append, List.length_append,
    List.length_append, first, second]

theorem WrittenFirst.behind
    {es later : List Effect}
    (reported : Reported es)
    (written : WrittenFirst later) :
    WrittenFirst (es ++ later) := by
  unfold Reported at reported
  unfold WrittenFirst at written ⊢
  rw [statements_append, forwards_append, List.length_append,
    List.length_append, reported]
  omega

theorem reported_rules : Rules WrittenFirst Reported where
  nothing := rfl
  within := fun _ => Reported.writtenFirst
  compose := fun _ _ => WrittenFirst.behind
  both := fun _ _ => Reported.append

/-- Effects of which none is a statement or the record of one. -/
theorem always_reported
    {es : List Effect}
    (calm : ∀ effect ∈ es, Reported [effect]) :
    Always Reported es := by
  intro k
  induction es generalizing k with
  | nil =>
      rw [List.take_nil]
      rfl
  | cons effect rest inductionHypothesis =>
      obtain ⟨first, later⟩ := List.forall_mem_cons.mp calm
      cases k with
      | zero =>
          rfl
      | succ k =>
          exact Reported.append first (inductionHypothesis later k)

/-- A fired scenario records a fault and severs sockets. -/
theorem mem_fireEffects
    {parseDuration : String → Except String Nat}
    {e : Event}
    {s : Scenario}
    {effect : Effect}
    (member : effect ∈ (fireEffects parseDuration e s).1) :
    effect = .record (.fault e s) ∨ ∃ side mode, effect = .sever side mode := by
  have acted
      (member :
        effect ∈
          (.record (.fault e s) ::
            (s.action.disconnect.map fun d =>
              Effect.sever d.side d.mode).toList : List Effect)) :
      effect = .record (.fault e s) ∨
        ∃ side mode, effect = .sever side mode := by
    rcases List.mem_cons.mp member with isFault | severs
    · exact Or.inl isFault
    · obtain ⟨d, -, rfl⟩ := by simpa using severs
      exact Or.inr ⟨d.side, d.mode, rfl⟩
  unfold fireEffects at member
  cases asked : s.action.delay with
  | none =>
      rw [asked] at member
      exact acted member
  | some delay =>
      rw [asked] at member
      cases parsed : parseDuration delay.duration with
      | ok duration =>
          simp only [parsed] at member
          exact acted member
      | error message =>
          simp only [parsed] at member
          exact Or.inl (List.mem_singleton.mp member)

/-- A statement is written in front of the record of its being forwarded. -/
theorem forwarding_rules (parseDuration : String → Except String Nat) :
    RecordRules parseDuration WrittenFirst Reported where
  toRules := reported_rules
  notes := fun e unlike => by
    refine reported_rules.even
      (always_reported (List.forall_mem_singleton.mpr ?_))
    change ([e].filter fun e => e.event = "query.forwarded").length = 0
    simp [unlike]
  fires := fun e s => by
    refine reported_rules.even (always_reported fun effect member => ?_)
    obtain rfl | ⟨side, mode, rfl⟩ := mem_fireEffects member
    · rfl
    · rfl
  passes := fun f other => by
    refine reported_rules.even
      (always_reported (List.forall_mem_singleton.mpr ?_))
    change
      0 =
        ([f].filter fun f =>
          f.frontendTag = .query ∨ f.frontendTag = .execute).length
    simp [other]
  reports := fun f e isStatement isForwarded => by
    have one : statements [.toServer f] = [f] := by
      change
        ([f].filter fun f =>
          f.frontendTag = .query ∨ f.frontendTag = .execute) = [f]
      simp [isStatement]
    have noted : forwards [.record (.semantic e)] = [e] := by
      change ([e].filter fun e => e.event = "query.forwarded") = [e]
      simp [isForwarded]
    have reported :
        Reported [.toServer f, .record (.semantic e)] := by
      change
        (forwards [.record (.semantic e)]).length =
          (statements [.toServer f]).length
      rw [one, noted]
      rfl
    refine ⟨?_, fun _ => reported⟩
    simp only [always_cons, always_nil]
    refine ⟨Reported.writtenFirst rfl, ⟨Nat.zero_le _, ?_⟩,
      reported.writtenFirst⟩
    rw [one]
    exact Nat.le_refl 1
  writes := fun d => by
    refine reported_rules.even
      (always_reported (List.forall_mem_singleton.mpr ?_))
    rfl
  cuts := fun r => by
    refine (always_reported fun effect member => ?_).mono reported_rules.within
    unfold cutEffects at member
    obtain rfl | rfl := List.mem_pair.mp member
    · rfl
    · rfl
  closes := fun side => by
    refine (always_reported (List.forall_mem_singleton.mpr ?_)).mono
      reported_rules.within
    rfl

/-! ## Silence -/

/-- Nothing is written behind a severed socket. -/
def Quiet (es : List Effect) : Prop :=
  ∀ before later,
    es = before ++ later →
      Effect.severs before ≠ [] →
        Effect.sent later = [] ∧ Effect.delivered later = []

theorem quiet_of_silent
    {es : List Effect}
    (sent : Effect.sent es = [])
    (delivered : Effect.delivered es = []) :
    Quiet es := by
  rintro before later rfl -
  rw [Effect.sent_append] at sent
  rw [Effect.delivered_append] at delivered
  exact ⟨(List.append_eq_nil_iff.mp sent).2,
    (List.append_eq_nil_iff.mp delivered).2⟩

/-- Nothing has been severed. -/
def Unsevered (es : List Effect) : Prop :=
  Effect.severs es = []

/-- Quiet effects behind others that sever nothing. -/
theorem Quiet.behind
    {es later : List Effect}
    (unsevered : Unsevered es)
    (quiet : Quiet later) :
    Quiet (es ++ later) := by
  intro before rest shape severed
  rcases List.append_eq_append_iff.mp shape with
      ⟨inside, rfl, split⟩ | ⟨inside, rfl, -⟩
  · rw [Effect.severs_append, unsevered, List.nil_append] at severed
    exact quiet inside rest split severed
  · unfold Unsevered at unsevered
    rw [Effect.severs_append] at unsevered
    exact absurd (List.append_eq_nil_iff.mp unsevered).1 severed

theorem quiet_rules : Rules Quiet Unsevered where
  nothing := rfl
  within := by
    rintro es unsevered before later rfl severed
    unfold Unsevered at unsevered
    rw [Effect.severs_append] at unsevered
    exact absurd (List.append_eq_nil_iff.mp unsevered).1 severed
  compose := fun _ _ => Quiet.behind
  both := fun es later first second => by
    unfold Unsevered at first second ⊢
    rw [Effect.severs_append, first, second]
    rfl

/-- Effects without a write. -/
theorem always_quiet
    {es : List Effect}
    (sent : Effect.sent es = [])
    (delivered : Effect.delivered es = []) :
    Always Quiet es := by
  intro k
  rw [← List.take_append_drop k es, Effect.sent_append] at sent
  rw [← List.take_append_drop k es, Effect.delivered_append] at delivered
  exact quiet_of_silent (List.append_eq_nil_iff.mp sent).1
    (List.append_eq_nil_iff.mp delivered).1

/-- Nothing is written behind a severed socket. -/
theorem silence_rules (parseDuration : String → Except String Nat) :
    TurnRules parseDuration Quiet Unsevered where
  toRules := quiet_rules
  applies r events _ := by
    obtain ⟨does, -⟩ :=
      applyEvents_does parseDuration events r.matchers (a := r.borrow) rfl
    exact ⟨always_quiet does.sent does.delivered,
      fun goesOn => (does.disconnect goesOn.2).2⟩
  passes f _ := quiet_rules.even (by
    simp only [always_cons, always_nil]
    exact ⟨rfl, rfl⟩)
  forwards r f e _ _ := by
    obtain ⟨does, -⟩ :=
      applyEvents_does parseDuration [e] r.matchers (a := r.borrow) rfl
    have write : Piece Quiet Unsevered True [.toServer f] :=
      quiet_rules.even (by
        simp only [always_cons, always_nil]
        exact ⟨rfl, rfl⟩)
    exact quiet_rules.join write trivial
      ⟨always_quiet does.sent does.delivered,
        fun goesOn => (does.disconnect goesOn.2).2⟩
  writes d := quiet_rules.even (by
    simp only [always_cons, always_nil]
    exact ⟨rfl, rfl⟩)
  cuts _ := always_quiet rfl rfl
  closes _ := always_quiet rfl rfl

/-! ## A failing operation -/

/-- What a loop has done, and how it has ended, if it has. -/
structure Attempt where
  done : List Effect
  exit : Option Exit

section

variable (sha256 : Bytes → String) (parseDuration : String → Except String Nat)

/--
The loop where the operation behind the first `k` ones fails: the turn breaks off
there, and `connection` returns the error.
-/
def attempt (k : Nat) (message : String) (r : Relay) : List Input → Attempt
  | [] => ⟨[], r.exit⟩
  | input :: rest =>
      let es := r.effects sha256 parseDuration input
      if k < es.length then
        ⟨es.take k, some (.error message)⟩
      else
        let later :=
          attempt (k - es.length) message (r.step sha256 parseDuration input)
            rest
        ⟨es ++ later.done, later.exit⟩

variable (id : Nat) (startup : StartupMetadata)

/--
A statement is written before it is reported.  What a run of the loop does is
`es`, and wherever it breaks off, there are as many `query.forwarded` records as
statements written to the server, or one fewer.
-/
theorem forwarded_behind_write
    (scenarios : List Scenario)
    (inputs : List Input) :
    let r := start id startup scenarios
    let es := r.runEffects sha256 parseDuration inputs
    Performs r es (r.run sha256 parseDuration inputs) ∧
      ∀ k,
        (forwards (es.take k)).length ≤ (statements (es.take k)).length ∧
          (statements (es.take k)).length ≤ (forwards (es.take k)).length + 1 :=
  ⟨run_performs sha256 parseDuration _ inputs,
    ((forwarding_rules parseDuration).turns.run sha256 _ inputs).all⟩

/--
Behind a severed socket nothing is written.  What a run of the loop does is `es`,
and behind the first severed socket in it there is no write to either side.
-/
theorem silent_behind_severing
    (scenarios : List Scenario)
    (inputs : List Input) :
    let r := start id startup scenarios
    let es := r.runEffects sha256 parseDuration inputs
    Performs r es (r.run sha256 parseDuration inputs) ∧
      ∀ before later,
        es = before ++ later →
        Effect.severs before ≠ [] →
        Effect.sent later = [] ∧ Effect.delivered later = [] :=
  ⟨run_performs sha256 parseDuration _ inputs,
    ((silence_rules parseDuration).run sha256 _ inputs).all.whole⟩

end

end Relay

end Pgfault
