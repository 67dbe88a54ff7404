import Pgfault.Connecting
import Pgfault.TraceAudit

namespace Pgfault

/-!
# The life of a connection in the trace

The records of one connection come in a fixed order: its start or a forwarded
cancellation, the events and faults of its loop, the cut of a result, its end.
`Stage` is the automaton of that order, and every connection keeps to it at every
moment.
-/

namespace Record

/-- The connection a record is about. -/
def connection : Record → Nat
  | .semantic e => e.connectionId
  | .fault e _ => e.connectionId
  | .lifecycle id _ _ => id

/-- Whether a record reports a protocol event or a fault at one. -/
def reports : Record → Bool
  | .lifecycle _ _ _ => false
  | _ => true

end Record

/-- How far the records of a connection have come. -/
inductive Stage where
  | fresh
  | relaying
  | cut
  | cancelled
  | ended
  deriving Repr, DecidableEq

namespace Stage

/-- The stage behind one more record, if it may come now. -/
def next : Stage → Record → Option Stage
  | .fresh, .lifecycle _ "startup" _ => some .relaying
  | .fresh, .lifecycle _ "cancel.forwarded" _ => some .cancelled
  | .relaying, .semantic _ => some .relaying
  | .relaying, .fault _ _ => some .relaying
  | .relaying, .lifecycle _ "result.truncated" _ => some .cut
  | .ended, _ => none
  | _, .lifecycle _ "connection.closed" _ => some .ended
  | _, _ => none

/-- The stage behind some records, if their order is right. -/
def behind (stage : Stage) (records : List Record) : Option Stage :=
  records.foldlM next stage

theorem behind_append
    (stage : Stage)
    (records later : List Record) :
    stage.behind (records ++ later) =
      (stage.behind records).bind fun reached => reached.behind later :=
  List.foldlM_append

/-- Records in order are in order up to every point. -/
theorem isSome_behind_of_prefix
    {stage : Stage}
    {records whole : List Record}
    (isPrefix : records <+: whole)
    (orderly : (stage.behind whole).isSome = true) :
    (stage.behind records).isSome = true := by
  obtain ⟨later, rfl⟩ := isPrefix
  rw [behind_append] at orderly
  cases reached : stage.behind records with
  | none =>
      rw [reached] at orderly
      cases orderly
  | some stage =>
      rfl

/-- A loop that reports goes on. -/
theorem behind_reports
    {told : List Record}
    (reports : ∀ r ∈ told, r.reports = true) :
    relaying.behind told = some .relaying := by
  induction told with
  | nil =>
      rfl
  | cons r rest inductionHypothesis =>
      have first := reports r List.mem_cons_self
      have later := inductionHypothesis fun x member =>
        reports x (List.mem_cons_of_mem r member)
      cases r with
      | semantic e =>
          exact later
      | fault e s =>
          exact later
      | lifecycle id event detail =>
          cases first

/-- A connection can end wherever it has come, once. -/
theorem behind_closed
    {stage : Stage}
    (alive : stage ≠ .ended)
    (id : Nat)
    (exit : Exit) :
    stage.behind (Connection.closed id (some exit)) = some .ended := by
  cases stage <;> cases exit <;> first | rfl | exact absurd rfl alive

end Stage

/-! ## The records of a loop -/

namespace Relay

section

variable (sha256 : Bytes → String) {parseDuration : String → Except String Nat}

/-- What the loop of a connection has recorded. -/
structure Narrates (id : Nat) (r : Relay) (told ending : List Record) :
    Prop where
  trace : r.trace = .lifecycle id "startup" "" :: (told ++ ending)
  told : ∀ x ∈ told, x.connection = id ∧ x.reports = true
  ends : Ends id ending r

theorem reports_own
    {id : Nat}
    {matchers : List Matcher}
    {es : List Event}
    (own : ∀ e ∈ es, e.connectionId = id) :
    ∀ x ∈ reports matchers es, x.connection = id ∧ x.reports = true := by
  induction es generalizing matchers with
  | nil =>
      intro x member
      simp [reports] at member
  | cons e rest inductionHypothesis =>
      have now := own e List.mem_cons_self
      have later (next : List Matcher) :=
        @inductionHypothesis next fun e member =>
          own e (List.mem_cons_of_mem _ member)
      intro x member
      simp only [reports, List.cons_append, List.mem_cons, List.mem_append,
        List.mem_map] at member
      rcases member with rfl | ⟨s, -, rfl⟩ | isLater
      · exact ⟨now, rfl⟩
      · exact ⟨now, rfl⟩
      · exact later _ x isLater

/-- The loop of a connection, whatever it reads. -/
theorem narrates_run
    (id : Nat)
    (startup : StartupMetadata)
    {scenarios : List Scenario}
    (valid : ∀ s ∈ scenarios, s.validate parseDuration = .ok ())
    (inputs : List Input) :
    ∃ told ending,
      Narrates id
        ((start id startup scenarios).run sha256 parseDuration inputs) told
        ending := by
  obtain ⟨calls, ending, ends, tells⟩ :=
    tells_start sha256 parseDuration id startup valid inputs
  refine ⟨reports (scenarios.map Matcher.new)
    ((ConnectionState.new id startup).raisedBy sha256 calls), ending, ?_, ?_,
      ends⟩
  · have trace := tells.trace
    rw [List.append_assoc] at trace
    exact trace
  · exact reports_own fun e member =>
      ConnectionState.connectionId_of_raisedBy member

/-- A loop only adds to its trace. -/
theorem step_trace_prefix
    {r : Relay}
    (punctual : ∀ m ∈ r.matchers, Punctual parseDuration m.scenario)
    (input : Input) :
    r.trace <+: (r.step sha256 parseDuration input).trace := by
  obtain ⟨calls, ending, -, tells⟩ := step_tells sha256 punctual input
  rw [tells.trace, List.append_assoc]
  exact List.prefix_append _ _

end

end Relay

namespace Pipe

/-- A wake is a turn of the relay or none. -/
theorem step_relay
    (sha256 : Bytes → String)
    (parseDuration : String → Except String Nat)
    (p : Pipe)
    (wake : Wake) :
    (p.step sha256 parseDuration wake).relay = p.relay ∨
      ∃ input,
        (p.step sha256 parseDuration wake).relay =
          p.relay.step sha256 parseDuration input := by
  rcases step_moves sha256 parseDuration p wake with
      same | ⟨side, bytes, -, -, moves⟩
  · rw [same]
    exact Or.inl rfl
  · rcases moves.answers with ⟨relay, -⟩ | ⟨f, relay, -⟩ | ⟨read, -, relay, -⟩
    · exact Or.inl relay
    · exact Or.inr ⟨_, relay⟩
    · exact Or.inr ⟨_, relay⟩

end Pipe

/-! ## The records of a task -/

namespace Task

section

variable {sha256 : Bytes → String} {parseDuration : String → Except String Nat}
variable {config : Config}

/-- The loop of a task is a run of the relay. -/
theorem Runs.relay
    {t : Task}
    {pipe : Pipe}
    (runs : Runs sha256 parseDuration config t pipe) :
    ∃ startup inputs,
      pipe.relay =
        (Relay.start t.id startup config.scenarios).run sha256 parseDuration
          inputs := by
  obtain ⟨packet, startup, wakes, -, rfl⟩ := runs
  obtain ⟨inputs, refines⟩ :=
    Pipe.refines_run sha256 parseDuration t.id startup config.scenarios wakes
  exact ⟨startup, inputs, refines.relay⟩

/-- What a connection has recorded: its own records, in their order. -/
structure Orderly (t : Task) (phase : Phase) (records : List Record) :
    Prop where
  own : ∀ r ∈ records, r.connection = t.id
  stage :
    ∃ stage,
      Stage.fresh.behind records = some stage ∧
        (stage = .ended ↔ ∃ pipe, phase = .closed pipe)

theorem closed_own (id : Nat) (exit : Exit) :
    ∀ r ∈ Connection.closed id (some exit), r.connection = id := by
  intro r member
  cases exit <;> rw [List.mem_singleton.mp member] <;> rfl

/-- The end of a connection that has been orderly so far. -/
theorem Orderly.close
    {t : Task}
    {phase : Phase}
    {records : List Record}
    (orderly : Orderly t phase records)
    (open_ : ¬ ∃ pipe, phase = .closed pipe)
    (pipe : Option Pipe)
    (exit : Exit) :
    Orderly t (.closed pipe)
      (records ++ Connection.closed t.id (some exit)) := by
  obtain ⟨own, stage, reached, decides⟩ := orderly
  refine ⟨?_, .ended, ?_, ?_⟩
  · intro r member
    rcases List.mem_append.mp member with old | isLast
    · exact own r old
    · exact closed_own t.id exit r isLast
  · rw [Stage.behind_append, reached]
    exact Stage.behind_closed (fun isEnded => open_ (decides.mp isEnded)) _ _
  · exact iff_of_true rfl ⟨pipe, rfl⟩

/-- The records of a loop, with a phase that is not the end. -/
theorem Runs.orderly
    (valid : ∀ s ∈ config.scenarios, s.validate parseDuration = .ok ())
    {t : Task}
    {pipe : Pipe}
    (runs : Runs sha256 parseDuration config t pipe)
    {phase : Phase}
    (open_ : ¬ ∃ pipe, phase = .closed pipe) :
    Orderly t phase pipe.relay.trace := by
  obtain ⟨startup, inputs, isRun⟩ := runs.relay
  obtain ⟨told, ending, narrates⟩ :=
    Relay.narrates_run sha256 t.id startup valid inputs
  rw [← isRun] at narrates
  have reached :
      Stage.fresh.behind pipe.relay.trace = Stage.relaying.behind ending := by
    rw [narrates.trace]
    have first (later : List Record) :
        Stage.fresh.behind (.lifecycle t.id "startup" "" :: later) =
          Stage.relaying.behind later := rfl
    rw [first, Stage.behind_append,
      Stage.behind_reports fun r member => (narrates.told r member).2]
    rfl
  refine ⟨?_, ?_⟩
  · intro r member
    rw [narrates.trace] at member
    rcases List.mem_cons.mp member with rfl | later
    · rfl
    · rcases List.mem_append.mp later with told | isLast
      · exact (narrates.told r told).1
      · rcases narrates.ends with rfl | ⟨rfl, -⟩
        · simp at isLast
        · rw [List.mem_singleton.mp isLast]
          rfl
  · rw [reached]
    rcases narrates.ends with rfl | ⟨rfl, -⟩
    · exact ⟨.relaying, rfl, iff_of_false (by decide) open_⟩
    · exact ⟨.cut, rfl, iff_of_false (by decide) open_⟩

/-- Every phase of a task. -/
theorem Stands.orderly
    (valid : ∀ s ∈ config.scenarios, s.validate parseDuration = .ok ())
    {t : Task}
    {phase : Phase}
    {records : List Record}
    (stands : Stands sha256 parseDuration config t phase records) :
    Orderly t phase records := by
  have silent {phase : Phase} (open_ : ¬ ∃ pipe, phase = .closed pipe) :
      Orderly t phase [] :=
    ⟨by simp, .fresh, rfl, iff_of_false (by decide) open_⟩
  induction stands with
  | opening =>
      exact silent (by simp)
  | panicked message =>
      exact silent (by simp)
  | refused message =>
      exact silent (by simp)
  | cancelled =>
      refine ⟨?_, .cancelled, rfl, iff_of_false (by decide) (by simp)⟩
      intro r member
      rw [List.mem_singleton.mp member]
      rfl
  | dismissed stood inductionHypothesis =>
      exact inductionHypothesis.close (by simp) none _
  | relaying runs running =>
      exact runs.orderly valid (by simp)
  | left runs exited =>
      exact runs.orderly valid (by simp)
  | @closed pipe exit runs exited =>
      have loop : Orderly t .opening pipe.relay.trace :=
        runs.orderly valid (by simp)
      exact loop.close (by simp) _ _

/-- A task only adds to its records. -/
theorem Sound.records_prefix
    (valid : ∀ s ∈ config.scenarios, s.validate parseDuration = .ok ())
    (serverName : String → Bool)
    {t : Task}
    (sound : Sound sha256 parseDuration config t)
    (event : TaskEvent) :
    t.records <+:
      (t.step serverName sha256 parseDuration config event).records := by
  have stands := sound.stands
  unfold Task.step
  split
  · rename_i phase
    rw [sound.unrecorded phase]
    exact List.nil_prefix
  · rename_i wake pipe phase
    rw [phase] at stands
    generalize t.records = records at stands
    cases stands with
    | relaying runs running =>
        obtain ⟨startup, inputs, isRun⟩ := runs.relay
        obtain ⟨calls, ending, -, tells⟩ :=
          Relay.tells_start sha256 parseDuration t.id startup valid inputs
        rw [← isRun] at tells
        have longer :
            pipe.relay.trace <+:
              (pipe.step sha256 parseDuration wake).relay.trace := by
          rcases Pipe.step_relay sha256 parseDuration pipe wake with
              same | ⟨input, stepped⟩
          · exact ⟨[], by rw [same, List.append_nil]⟩
          · rw [stepped]
            refine Relay.step_trace_prefix sha256 (tells.punctual ?_) input
            intro m member
            obtain ⟨s, listed, rfl⟩ := List.mem_map.mp member
            exact (Scenario.validate_iff.mp (valid s listed)).punctual
        exact longer
  · exact List.prefix_append _ _
  · exact List.prefix_rfl

/-- The faults a task records are due to the scenarios of the proxy. -/
theorem Stands.genuine
    {t : Task}
    {phase : Phase}
    {records : List Record}
    (stands : Stands sha256 parseDuration config t phase records) :
    Genuine config.scenarios records := by
  have loop {pipe : Pipe} (runs : Runs sha256 parseDuration config t pipe) :
      Genuine config.scenarios pipe.relay.trace := by
    obtain ⟨startup, inputs, isRun⟩ := runs.relay
    rw [isRun]
    exact (Relay.sourced_run sha256 parseDuration t.id startup config.scenarios
      inputs).trace
  have silent : Genuine config.scenarios [] := by
    intro e s member
    simp at member
  have close {before : List Record} (genuine : Genuine config.scenarios before)
      (exit : Exit) :
      Genuine config.scenarios
        (before ++ Connection.closed t.id (some exit)) := by
    intro e s member
    rcases List.mem_append.mp member with old | isLast
    · exact genuine e s old
    · exact Connection.closed_genuine config.scenarios t.id _ e s isLast
  induction stands with
  | opening =>
      exact silent
  | panicked message =>
      exact silent
  | refused message =>
      exact silent
  | cancelled =>
      exact silent.concat fun e s isFault => by cases isFault
  | dismissed stood inductionHypothesis =>
      exact close inductionHypothesis _
  | relaying runs running =>
      exact loop runs
  | left runs exited =>
      exact loop runs
  | closed runs exited =>
      exact close (loop runs) _

end

end Task

end Pgfault
