import Pgfault.CommitSoundness
import Pgfault.Occurrences
import Pgfault.RelayTurn

namespace Pgfault

open Queue Machine

/-!
# Replay of a trace

What `replay` returns, which part of it looks at connection numbers, and why it
accepts every trace the proxy writes.
-/

/-! ## What a replay returns -/

namespace Trace

/-- The scenarios of a replay against the faults of a trace. -/
structure Replayed
    (parseDuration : String → Except String Nat)
    (records : List Record)
    (earlier schedules : List Scenario) : Prop where
  keeps : ∀ x ∈ earlier, x ∈ schedules
  repeats : ∀ e s, Record.fault e s ∈ records → reschedule e s ∈ schedules
  source :
    ∀ x ∈ schedules,
      x ∈ earlier ∨
        ∃ e s, Record.fault e s ∈ records ∧ x = reschedule e s ∧
          x.validate parseDuration = .ok ()
  nodup : earlier.Nodup → schedules.Nodup

/-- A record that is no fault changes nothing. -/
theorem Replayed.skip
    {parseDuration : String → Except String Nat}
    {records : List Record}
    {earlier schedules : List Scenario}
    (replayed : Replayed parseDuration records earlier schedules)
    {record : Record}
    (silent : record.isFault = false) :
    Replayed parseDuration (record :: records) earlier schedules where
  keeps := replayed.keeps
  repeats e s member := by
    rcases List.mem_cons.mp member with isRecord | later
    · subst isRecord
      cases silent
    · exact replayed.repeats e s later
  source x member := by
    rcases replayed.source x member with old | ⟨e, s, later, equals, valid⟩
    · exact Or.inl old
    · exact Or.inr ⟨e, s, List.mem_cons_of_mem _ later, equals, valid⟩
  nodup := replayed.nodup

/-- A fault is added unless it is there already. -/
theorem Replayed.add
    {parseDuration : String → Except String Nat}
    {records : List Record}
    {earlier schedules : List Scenario}
    {e : Event}
    {s : Scenario}
    (valid : (reschedule e s).validate parseDuration = .ok ())
    (replayed :
      Replayed parseDuration records
        (if reschedule e s ∈ earlier then earlier
        else earlier ++ [reschedule e s])
        schedules) :
    Replayed parseDuration (.fault e s :: records) earlier schedules := by
  have added (x : Scenario) :
      x ∈ (if reschedule e s ∈ earlier then earlier
        else earlier ++ [reschedule e s]) ↔
      x ∈ earlier ∨ x = reschedule e s := by
    split
    · rename_i old
      constructor
      · exact Or.inl
      · rintro (inside | rfl)
        · exact inside
        · exact old
    · rw [List.mem_append, List.mem_singleton]
  refine ⟨?_, ?_, ?_, ?_⟩
  · intro x member
    exact replayed.keeps x ((added x).mpr (Or.inl member))
  · intro e' s' member
    rcases List.mem_cons.mp member with isRecord | later
    · cases isRecord
      exact replayed.keeps _ ((added _).mpr (Or.inr rfl))
    · exact replayed.repeats e' s' later
  · intro x member
    rcases replayed.source x member with old | ⟨e', s', later, rest⟩
    · rcases (added x).mp old with old | rfl
      · exact Or.inl old
      · exact Or.inr ⟨e, s, List.mem_cons_self, rfl, valid⟩
    · exact Or.inr ⟨e', s', List.mem_cons_of_mem _ later, rest⟩
  · intro distinct
    refine replayed.nodup ?_
    split
    · exact distinct
    · rename_i fresh
      rw [List.nodup_append]
      refine ⟨distinct, by simp, ?_⟩
      intro x old y isNew
      rw [List.mem_singleton] at isNew
      subst y
      rintro rfl
      exact fresh old

/-- The loop of `replay`, record by record. -/
theorem replayed_of_ok
    {parseDuration : String → Except String Nat}
    {records : List Record}
    {earlier schedules : List Scenario}
    (ok : replayLoop parseDuration records earlier = .ok schedules) :
    Replayed parseDuration records earlier schedules := by
  induction records generalizing earlier with
  | nil =>
      cases ok
      refine ⟨fun _ member => member, ?_, fun _ member => Or.inl member, id⟩
      intro e s member
      simp at member
  | cons record rest inductionHypothesis =>
      cases record with
      | semantic e =>
          exact (inductionHypothesis ok).skip rfl
      | lifecycle id event detail =>
          exact (inductionHypothesis ok).skip rfl
      | fault e s =>
          simp only [replayLoop] at ok
          cases valid : (reschedule e s).validate parseDuration with
          | error message =>
              rw [valid] at ok
              cases ok
          | ok done =>
              rw [valid] at ok
              exact (inductionHypothesis ok).add valid

/-- The loop fails only at a fault whose scenario is refused. -/
theorem replayLoop_ok
    {parseDuration : String → Except String Nat}
    {records : List Record}
    (valid :
      ∀ e s, Record.fault e s ∈ records →
        (reschedule e s).validate parseDuration = .ok ())
    (earlier : List Scenario) :
    ∃ schedules, replayLoop parseDuration records earlier = .ok schedules := by
  induction records generalizing earlier with
  | nil =>
      exact ⟨earlier, rfl⟩
  | cons record rest inductionHypothesis =>
      have later := inductionHypothesis fun e s member =>
        valid e s (List.mem_cons_of_mem _ member)
      cases record with
      | semantic e =>
          exact later earlier
      | lifecycle id event detail =>
          exact later earlier
      | fault e s =>
          obtain ⟨schedules, ok⟩ := later
            (if reschedule e s ∈ earlier then earlier
            else earlier ++ [reschedule e s])
          refine ⟨schedules, ?_⟩
          simp only [replayLoop, valid e s List.mem_cons_self]
          exact ok

/-- What an accepted replay returns. -/
theorem replay_replayed
    {parseDuration : String → Except String Nat}
    {records : List Record}
    {schedules : List Scenario}
    (accepted : replay parseDuration records = .ok schedules) :
    Replayed parseDuration records [] schedules := by
  unfold replay at accepted
  cases looped : replayLoop parseDuration records [] with
  | error message =>
      rw [looped] at accepted
      cases accepted
  | ok result =>
      rw [looped] at accepted
      by_cases empty : result.isEmpty = true
      · simp [bind, Except.bind, empty] at accepted
      · simp only [bind, Except.bind, empty, Bool.false_eq_true, if_false,
          Except.ok.injEq] at accepted
        subst accepted
        exact replayed_of_ok looped

end Trace

/-! ## Connection numbers -/

/-- The same event on a connection with another number. -/
def Event.renumber (id : Nat) (e : Event) : Event :=
  { e with connectionId := id }

namespace Matcher

/-- A scenario without a connection number does not look at it. -/
theorem selects_renumber
    {s : Scenario}
    (free : s.selector.connectionOrdinal = none)
    (id : Nat)
    (e : Event) :
    s.selects (e.renumber id) = s.selects e := by
  simp [Scenario.selects, Event.renumber, free]

theorem observe_renumber
    {m : Matcher}
    (free : m.scenario.selector.connectionOrdinal = none)
    (id : Nat)
    (e : Event) :
    m.observe (e.renumber id) = m.observe e := by
  have counted : m.counts (e.renumber id) = m.counts e := by
    simp only [counts, selects_renumber free]
    rfl
  simp only [observe, counted]

theorem answers_renumber
    {m : Matcher}
    (free : m.scenario.selector.connectionOrdinal = none)
    (id : Nat)
    (es : List Event) :
    m.answers (es.map (Event.renumber id)) = m.answers es := by
  induction es generalizing m with
  | nil =>
      rfl
  | cons e rest inductionHypothesis =>
      simp only [List.map_cons, answers, observe_renumber free]
      rw [inductionHypothesis (by simpa using free)]

end Matcher

namespace Trace

/-- An event a rescheduled scenario fires at, on the connection it names. -/
def counted (e : Event) (s : Scenario) (id : Nat) : Event :=
  { e with
    connectionId := id
    semanticReliable := true
    statementClass := s.when.statementClass.head?.getD e.statementClass }

/-- An optional filter taken over from a value accepts that value. -/
theorem all_self {α : Type} [DecidableEq α] (value : Option α) :
    value.all (fun text => value == some text) = true := by
  cases value <;> simp

theorem answers_counted
    {e : Event}
    {s : Scenario}
    {n : Nat}
    (named : s.selector.connectionOrdinal = some n)
    (id : Nat) :
    (Matcher.new (reschedule e s)).answers [counted e s id] =
      [id == n] := by
  have listed :
      (s.when.statementClass.isEmpty ||
        s.when.statementClass.contains
          (s.when.statementClass.head?.getD e.statementClass)) = true := by
    cases s.when.statementClass <;> simp
  have selected :
      (reschedule e s).selects (counted e s id) = (id == n) := by
    simp only [Scenario.selects, reschedule, counted, named, all_self, listed]
    simp [Option.all]
  simp only [Matcher.answers, Matcher.observe, Matcher.counts, Matcher.new,
    selected]
  by_cases same : id = n <;> simp [same, reschedule, counted]

/--
Connection numbers.  The scenarios of an accepted replay answer alike whatever
number the connection has, exactly if no recorded scenario names a connection.
-/
theorem replay_connection_free
    (parseDuration : String → Except String Nat)
    (records : List Record)
    (schedules : List Scenario)
    (accepted : replay parseDuration records = .ok schedules) :
    (∀ scheduled ∈ schedules, ∀ (es : List Event) (first second : Nat),
        (Matcher.new scheduled).answers (es.map (Event.renumber first)) =
          (Matcher.new scheduled).answers (es.map (Event.renumber second))) ↔
      ∀ e s, Record.fault e s ∈ records →
        s.selector.connectionOrdinal = none := by
  have replayed := replay_replayed accepted
  constructor
  · intro alike e s member
    cases named : s.selector.connectionOrdinal with
    | none =>
        rfl
    | some n =>
        have same :=
          alike _ (replayed.repeats e s member) [counted e s n] n (n + 1)
        have answered (id : Nat) := answers_counted (e := e) named id
        have first := answered n
        have second := answered (n + 1)
        simp only [List.map_cons, List.map_nil, Event.renumber, counted] at *
        rw [first, second] at same
        simp at same
  · intro free scheduled member es first second
    obtain old | ⟨e, s, fault, equals, -⟩ := replayed.source scheduled member
    · simp at old
    · have unnamed :
          (Matcher.new scheduled).scenario.selector.connectionOrdinal =
            none := by
        subst equals
        exact free e s fault
      rw [Matcher.answers_renumber unnamed, Matcher.answers_renumber unnamed]

/-- The first query of a connection, as its event reports it. -/
def firstQuery : Event :=
  { connectionId := 1
    semanticReliable := true
    startup := default
    transactionEpoch := 1
    queryCycle := 1
    statementIndex := 1
    statementClass := .select
    sqlFingerprint := sampleSha256 (ascii "SELECT 1")
    event := "query.received"
    occurrence := 1
    rowIndex := none }

/-- Suppress the first query of one connection, or of any. -/
def dropQuery (connectionOrdinal : Option Nat) : Scenario where
  version := 1
  name := "drop-query"
  selector := { connectionOrdinal := connectionOrdinal }
  when := { event := "query.received" }
  action := { suppress := some ⟨true⟩ }

theorem replay_connection_free_dropQuery :
    (Matcher.new (reschedule firstQuery (dropQuery none))).answers
        ([firstQuery].map (Event.renumber 1)) =
      (Matcher.new (reschedule firstQuery (dropQuery none))).answers
        ([firstQuery].map (Event.renumber 2)) := by
  have alike :=
    (replay_connection_free (fun _ => .ok 0)
      [.fault firstQuery (dropQuery none)]
      [reschedule firstQuery (dropQuery none)] (by rfl)).mpr
  refine alike ?_ _ (by simp) [firstQuery] 1 2
  intro e s member
  rw [List.mem_singleton] at member
  cases member
  rfl

theorem replay_connection_bound_dropQuery :
    ∃ schedules,
      replay (fun _ => .ok 0) [.fault firstQuery (dropQuery (some 1))] =
        .ok schedules ∧
      ∃ scheduled ∈ schedules,
        (Matcher.new scheduled).answers [firstQuery.renumber 1] ≠
          (Matcher.new scheduled).answers [firstQuery.renumber 2] := by
  refine ⟨[reschedule firstQuery (dropQuery (some 1))], by rfl, _,
    List.mem_singleton.mpr rfl, ?_⟩
  decide +kernel

/-! ## Traces of the proxy -/

/-- A rescheduled scenario selects the event it was recorded at. -/
theorem reschedule_selects
    {e : Event}
    {s : Scenario}
    (selected : s.selects e = true) :
    (reschedule e s).selects e = true := by
  simp only [Scenario.selects, Bool.and_eq_true] at selected ⊢
  obtain ⟨⟨⟨⟨⟨⟨⟨-, named⟩, -⟩, -⟩, -⟩, -⟩, listed⟩, -⟩ := selected
  simp only [reschedule, all_self, Option.all_some, beq_self_eq_true, named,
    listed, and_self]

end Trace

namespace Scenario

/-- What `validate` accepts. -/
structure Valid
    (parseDuration : String → Except String Nat)
    (s : Scenario) : Prop where
  version : s.version = 1
  named : s.name.toList.all isWhiteSpace = false
  event : s.when.event ∈ EVENTS
  oneBased : s.when.occurrence ≠ some 0 ∧ s.when.row ≠ some 0
  ordinal : s.selector.connectionOrdinal ≠ some 0
  delay :
    ∀ delay ∈ s.action.delay, s.validateDelay parseDuration delay = .ok ()
  acts :
    ¬ (s.action.suppress.isNone ∧ s.action.disconnect.isNone ∧
      s.action.delay.isNone ∧ s.action.truncateResult.isNone)
  truncates :
    ¬ (s.action.truncateResult.isSome ∧ s.when.event ≠ "result.started")

/-- One check of `validate` behind another. -/
theorem bind_iff
    {check : Except String Unit}
    {rest : Unit → Except String Unit} :
    (check >>= rest) = .ok () ↔ check = .ok () ∧ rest () = .ok () := by
  cases check with
  | error message =>
      simp [bind, Except.bind]
  | ok done =>
      simp [bind, Except.bind]

/-- A check in front of the rest of `validate`. -/
theorem check_iff
    {condition : Prop}
    [Decidable condition]
    {message : String}
    {rest : Unit → Except String Unit} :
    (if condition then Except.error message >>= rest else rest ()) = .ok () ↔
      ¬ condition ∧ rest () = .ok () := by
  by_cases holds : condition
  · rw [if_pos holds, bind_iff]
    simp [holds]
  · rw [if_neg holds]
    simp [holds]

theorem validate_iff
    {parseDuration : String → Except String Nat}
    {s : Scenario} :
    s.validate parseDuration = .ok () ↔ s.Valid parseDuration := by
  have last {condition : Prop} [Decidable condition] {message : String} :
      (if condition then Except.error message else pure ()) =
        (.ok () : Except String Unit) ↔ ¬ condition := by
    split <;> simp [pure, Except.pure, *]
  -- The checks behind the delay are the same with and without one.
  have checks :
      s.validate parseDuration = .ok () ↔
        ¬ s.version ≠ 1 ∧ ¬ s.name.toList.all isWhiteSpace = true ∧
        ¬ s.when.event ∉ EVENTS ∧
        ¬ (s.when.occurrence = some 0 ∨ s.when.row = some 0) ∧
        ¬ s.selector.connectionOrdinal = some 0 ∧
        (∀ delay ∈ s.action.delay,
          s.validateDelay parseDuration delay = .ok ()) ∧
        ¬ (s.action.suppress.isNone ∧ s.action.disconnect.isNone ∧
          s.action.delay.isNone ∧ s.action.truncateResult.isNone) ∧
        ¬ (s.action.truncateResult.isSome ∧
          s.when.event ≠ "result.started") := by
    unfold validate
    simp only [check_iff]
    cases s.action.delay with
    | none =>
        simp only [bind_iff, check_iff, last, true_and, Option.mem_def,
          reduceCtorEq, false_imp_iff, implies_true]
    | some delay =>
        simp only [bind_iff, check_iff, last, Option.mem_def,
          Option.some.injEq, forall_eq']
  rw [checks]
  constructor
  · rintro ⟨version, named, event, oneBased, ordinal, delay, acts, truncates⟩
    exact ⟨not_not.mp version, by simpa using named, not_not.mp event,
      not_or.mp oneBased, ordinal, delay, acts, truncates⟩
  · rintro ⟨version, named, event, oneBased, ordinal, delay, acts, truncates⟩
    exact ⟨not_not.mpr version, by simp [named], not_not.mpr event,
      not_or.mpr oneBased, ordinal, delay, acts, truncates⟩

end Scenario

namespace Trace

/-- A rescheduled scenario is still accepted. -/
theorem reschedule_valid
    {parseDuration : String → Except String Nat}
    {e : Event}
    {s : Scenario}
    (valid : s.validate parseDuration = .ok ())
    (named : e.event = s.when.event)
    (row : e.rowIndex ≠ some 0) :
    (reschedule e s).validate parseDuration = .ok () := by
  have valid := Scenario.validate_iff.mp valid
  refine Scenario.validate_iff.mpr ?_
  exact
    { version := valid.version
      named := valid.named
      event := by
        have known := valid.event
        rw [← named] at known
        exact known
      oneBased := ⟨by simp [reschedule], row⟩
      ordinal := valid.ordinal
      delay := by
        intro delay asked
        have same :
            (reschedule e s).validateDelay parseDuration delay =
              s.validateDelay parseDuration delay := by
          simp only [Scenario.validateDelay, reschedule, named]
        rw [same]
        exact valid.delay delay asked
      acts := valid.acts
      truncates := by
        have truncates := valid.truncates
        rw [← named] at truncates
        exact truncates }

end Trace

/-- What a fault record owes to the scenarios of its proxy. -/
structure Due
    (scenarios : List Scenario)
    (e : Event)
    (s : Scenario) : Prop where
  listed : s ∈ scenarios
  named : e.event = s.when.event
  selected : s.selects e = true
  row : e.rowIndex ≠ some 0

/-- Every fault of a trace is due. -/
def Genuine (scenarios : List Scenario) (trace : List Record) : Prop :=
  ∀ e s, Record.fault e s ∈ trace → Due scenarios e s

/-- The matchers own scenarios of the proxy. -/
def Owned (scenarios : List Scenario) (matchers : List Matcher) : Prop :=
  ∀ m ∈ matchers, m.scenario ∈ scenarios

theorem Genuine.concat
    {scenarios : List Scenario}
    {trace : List Record}
    (genuine : Genuine scenarios trace)
    {record : Record}
    (due : ∀ e s, record = .fault e s → Due scenarios e s) :
    Genuine scenarios (trace ++ [record]) := by
  intro e s member
  rcases List.mem_append.mp member with old | isLast
  · exact genuine e s old
  · exact due e s (List.mem_singleton.mp isLast).symm

/-- A matcher fires only at an event it is waiting for. -/
theorem due_of_observe
    {scenarios : List Scenario}
    {m : Matcher}
    {e : Event}
    (owned : m.scenario ∈ scenarios)
    (row : e.rowIndex ≠ some 0)
    (fires : (m.observe e).1 = true) :
    Due scenarios e m.scenario := by
  unfold Matcher.observe at fires
  split at fires
  · rename_i counted
    simp only [Matcher.counts, Bool.and_eq_true, beq_iff_eq] at counted
    exact ⟨owned, counted.1.2, counted.2, row⟩
  · cases fires

theorem fire_trace
    (parseDuration : String → Except String Nat)
    (a : Applied)
    (e : Event)
    (s : Scenario) :
    (a.fire parseDuration e s).trace = a.trace ++ [.fault e s] := by
  unfold Applied.fire
  cases s.action.delay with
  | none =>
      rfl
  | some delay =>
      simp only
      cases parseDuration delay.duration <;> rfl

/-- Showing an event to the matchers records due faults. -/
theorem applyMatchers_genuine
    (parseDuration : String → Except String Nat)
    {scenarios : List Scenario}
    {e : Event}
    (row : e.rowIndex ≠ some 0)
    {matchers : List Matcher}
    {a : Applied}
    (owned : Owned scenarios matchers)
    (genuine : Genuine scenarios a.trace) :
    Owned scenarios (applyMatchers parseDuration e matchers a).1 ∧
      Genuine scenarios (applyMatchers parseDuration e matchers a).2.trace := by
  induction matchers generalizing a with
  | nil =>
      exact ⟨owned, genuine⟩
  | cons m rest inductionHypothesis =>
      have own := owned m List.mem_cons_self
      have ownRest : Owned scenarios rest :=
        fun n member => owned n (List.mem_cons_of_mem _ member)
      have observed : (m.observe e).2.scenario ∈ scenarios := by
        rw [Matcher.observe_scenario]
        exact own
      have cons {later : List Matcher} (ownLater : Owned scenarios later) :
          Owned scenarios ((m.observe e).2 :: later) := by
        intro n member
        rcases List.mem_cons.mp member with rfl | inside
        · exact observed
        · exact ownLater n inside
      simp only [applyMatchers]
      generalize reacts :
        (if (m.observe e).1 then a.fire parseDuration e m.scenario else a) =
          next
      have genuineNext : Genuine scenarios next.trace := by
        rw [← reacts]
        split
        · rename_i fires
          rw [fire_trace]
          refine genuine.concat ?_
          rintro e' s' equal
          cases equal
          exact due_of_observe own row fires
        · exact genuine
      split
      · exact ⟨cons ownRest, genuineNext⟩
      · obtain ⟨ownLater, genuineLater⟩ :=
          inductionHypothesis ownRest genuineNext
        exact ⟨cons ownLater, genuineLater⟩

/-- The same for several events. -/
theorem applyEvents_genuine
    (parseDuration : String → Except String Nat)
    {scenarios : List Scenario}
    {events : List Event}
    (rows : ∀ e ∈ events, e.rowIndex ≠ some 0)
    {matchers : List Matcher}
    {a : Applied}
    (owned : Owned scenarios matchers)
    (genuine : Genuine scenarios a.trace) :
    Owned scenarios (applyEvents parseDuration events matchers a).1 ∧
      Genuine scenarios (applyEvents parseDuration events matchers a).2.trace := by
  induction events generalizing matchers a with
  | nil =>
      exact ⟨owned, genuine⟩
  | cons e rest inductionHypothesis =>
      have recorded : Genuine scenarios (a.trace ++ [.semantic e]) :=
        genuine.concat fun e' s' equal => by cases equal
      obtain ⟨ownShown, genuineShown⟩ :=
        applyMatchers_genuine parseDuration (rows e List.mem_cons_self)
          (a := { a with trace := a.trace ++ [.semantic e] }) owned recorded
      simp only [applyEvents]
      split
      · exact ⟨ownShown, genuineShown⟩
      · exact inductionHypothesis
          (fun later member => rows later (List.mem_cons_of_mem _ member))
          ownShown genuineShown

namespace ConnectionState

/-- An event of a server frame that has a row has come with a row. -/
theorem row_of_events
    {s : ConnectionState}
    {front : Bool}
    {names : List String}
    (silent :
      "result.row" ∉ names ∨
        ∀ c, s.referenced front = some c → c.rows ≠ 0)
    {e : Event}
    (member : e ∈ (s.events front names).1) :
    e.rowIndex ≠ some 0 := by
  induction names generalizing s with
  | nil =>
      simp [events] at member
  | cons name rest inductionHypothesis =>
      simp only [events, List.mem_cons] at member
      rcases member with isFirst | inRest
      · subst e
        intro zero
        simp only [event] at zero
        split at zero
        · rename_i isRow
          obtain ⟨c, found, none⟩ := Option.map_eq_some_iff.mp zero
          rcases silent with unnamed | counted
          · exact unnamed (isRow ▸ List.mem_cons_self)
          · exact counted c found none
        · cases zero
      · refine inductionHypothesis ?_ inRest
        rcases silent with unnamed | counted
        · exact Or.inl fun inside => unnamed (List.mem_cons_of_mem _ inside)
        · exact Or.inr counted

theorem row_of_frontend
    {sha256 : Bytes → String}
    {s : ConnectionState}
    {f : Frame}
    {e : Event}
    (member : e ∈ (s.frontend sha256 f).1) :
    e.rowIndex ≠ some 0 := by
  refine row_of_events (Or.inl ?_) member
  have unrequested (c : StatementClass) : "result.row" ∉ requested c := by
    cases c <;> simp [requested]
  unfold receive
  cases f.frontendTag <;> simp [unrequested]

theorem row_of_forwarded
    (s : ConnectionState) :
    s.forwarded.1.rowIndex ≠ some 0 := by
  simp [forwarded, event]

theorem row_of_backend
    {s : ConnectionState}
    {f : Frame}
    {e : Event}
    (member : e ∈ (s.backend f).1) :
    e.rowIndex ≠ some 0 := by
  unfold backend at member
  cases tag : f.backendTag <;> simp only [tag] at member
  case dataRow =>
    refine row_of_events (Or.inr ?_) member
    -- The row is counted before its event is raised.
    intro c found
    simp only [referenced, Bool.false_eq_true, if_false, head?_modifyFront]
      at found
    obtain ⟨d, -, counted⟩ := Option.map_eq_some_iff.mp found
    subst counted
    exact Nat.succ_ne_zero _
  case readyForQuery =>
    split at member
    · rcases List.mem_append.mp member with early | late
      · refine row_of_events (Or.inl ?_) early
        intro isRow
        exact absurd (mem_readyEvents (List.mem_append_left _ isRow))
          (by decide)
      · exact row_of_events (Or.inl (by decide)) late
    · simp at member
  all_goals
    first
      | exact row_of_events (Or.inl (by decide)) member
      | simp at member

end ConnectionState

namespace Relay

/-- Matchers and trace of a relay against the scenarios of its proxy. -/
structure Sourced (scenarios : List Scenario) (r : Relay) : Prop where
  matchers : Owned scenarios r.matchers
  trace : Genuine scenarios r.trace

/-- Everything but matchers and trace plays no part. -/
theorem Sourced.of_same
    {scenarios : List Scenario}
    {r t : Relay}
    (sourced : Sourced scenarios r)
    (matchers : t.matchers = r.matchers)
    (trace : t.trace = r.trace) :
    Sourced scenarios t :=
  ⟨matchers ▸ sourced.matchers, trace ▸ sourced.trace⟩

theorem sourced_start
    (id : Nat)
    (startup : StartupMetadata)
    (scenarios : List Scenario) :
    Sourced scenarios (start id startup scenarios) where
  matchers m member := by
    obtain ⟨s, listed, rfl⟩ := List.mem_map.mp member
    exact listed
  trace e s member := by
    simp [start] at member

section

variable (sha256 : Bytes → String) (parseDuration : String → Except String Nat)

theorem Sourced.apply
    {scenarios : List Scenario}
    {r : Relay}
    (sourced : Sourced scenarios r)
    (events : List Event)
    (rows : ∀ e ∈ events, e.rowIndex ≠ some 0) :
    Sourced scenarios (r.apply parseDuration events).1 := by
  obtain ⟨owned, genuine⟩ :=
    applyEvents_genuine parseDuration rows (a := r.borrow) sourced.matchers
      sourced.trace
  exact ⟨owned, genuine⟩

theorem Sourced.cut
    {scenarios : List Scenario}
    {r : Relay}
    (sourced : Sourced scenarios r) :
    Sourced scenarios r.cut where
  matchers := sourced.matchers
  trace := sourced.trace.concat fun e s equal => by cases equal

theorem Sourced.forward
    {scenarios : List Scenario}
    {r : Relay}
    (sourced : Sourced scenarios r)
    (f : Frame) :
    Sourced scenarios (r.forward parseDuration f) := by
  have sent : Sourced scenarios { r with toServer := r.toServer ++ [f] } :=
    sourced.of_same rfl rfl
  unfold Relay.forward
  simp only
  split
  · have applied :=
      Sourced.apply parseDuration
        (r :=
          { r with
            toServer := r.toServer ++ [f]
            state := r.state.forwarded.2 })
        (sourced.of_same rfl rfl) [r.state.forwarded.1]
        (by
          intro e member
          rw [List.mem_singleton.mp member]
          exact ConnectionState.row_of_forwarded r.state)
    split
    · exact applied.of_same rfl rfl
    · exact applied
  · exact sent

theorem Sourced.clientFrame
    {scenarios : List Scenario}
    {r : Relay}
    (sourced : Sourced scenarios r)
    (f : Frame) :
    Sourced scenarios (r.clientFrame sha256 parseDuration f) := by
  have applied :=
    Sourced.apply parseDuration
      (r := { r with state := (r.state.frontend sha256 f).2 })
      (sourced.of_same rfl rfl) (r.state.frontend sha256 f).1
      (fun e member => ConnectionState.row_of_frontend member)
  unfold Relay.clientFrame
  simp only
  generalize
    ({ r with state := (r.state.frontend sha256 f).2 } : Relay).apply
      parseDuration (r.state.frontend sha256 f).1 = shown at applied ⊢
  have forwarded := applied.forward parseDuration f
  split
  · exact applied
  · split
    · exact applied.of_same rfl rfl
    · by_cases suppress : shown.2.suppress = true
      · simp only [suppress, if_true]
        split
        · exact applied.of_same rfl rfl
        · exact applied
      · simp only [suppress, Bool.false_eq_true, if_false]
        generalize shown.1.forward parseDuration f = sent at forwarded ⊢
        split
        · exact forwarded.of_same rfl rfl
        · exact forwarded

theorem Sourced.deliver
    {scenarios : List Scenario}
    {r : Relay}
    (sourced : Sourced scenarios r)
    (gate suppress : Bool)
    (d : Delivery) :
    Sourced scenarios (r.deliver gate suppress d) := by
  refine sourced.of_same (deliver_keeps r gate suppress d).2.2.2 ?_
  unfold Relay.deliver settle hold
  repeat' split
  all_goals rfl

theorem Sourced.serverFrame
    {scenarios : List Scenario}
    {r : Relay}
    (sourced : Sourced scenarios r)
    (f : Frame) :
    Sourced scenarios (r.serverFrame parseDuration f) := by
  have applied : Sourced scenarios (r.observeServer parseDuration f).1 :=
    Sourced.apply parseDuration
      (r :=
        { r with
          state := (r.state.backend f).2
          received := r.received + 1 })
      (sourced.of_same rfl rfl) (r.state.backend f).1
      (fun e member => ConnectionState.row_of_backend member)
  unfold Relay.serverFrame
  simp only
  generalize r.observeServer parseDuration f = shown at applied ⊢
  have counted :
      Sourced scenarios
        (if f.backendTag = .dataRow then
          { shown.1 with truncate := shown.1.truncate.map (· - 1) }
        else shown.1) := by
    split
    · exact applied.of_same rfl rfl
    · exact applied
  have delivered :=
    counted.deliver (r.gate f) shown.2.suppress ⟨r.received, f⟩
  split
  · exact applied
  · split
    · exact applied.of_same rfl rfl
    · split
      · exact applied.cut
      · generalize
          (if f.backendTag = .dataRow then
            { shown.1 with truncate := shown.1.truncate.map (· - 1) }
          else shown.1).deliver (r.gate f) shown.2.suppress ⟨r.received, f⟩ =
            last at delivered ⊢
        split
        · exact delivered.cut
        · exact delivered

/-- One turn of the loop. -/
theorem Sourced.step
    {scenarios : List Scenario}
    {r : Relay}
    (sourced : Sourced scenarios r)
    (input : Input) :
    Sourced scenarios (r.step sha256 parseDuration input) := by
  unfold Relay.step
  split
  · exact sourced
  · split
    · exact sourced.clientFrame sha256 parseDuration _
    · exact sourced.of_same rfl rfl
    · exact sourced.of_same rfl rfl
    · exact sourced.serverFrame parseDuration _
    · exact sourced.of_same rfl rfl
    · exact sourced.of_same rfl rfl

theorem sourced_run
    (id : Nat)
    (startup : StartupMetadata)
    (scenarios : List Scenario)
    (inputs : List Input) :
    Sourced scenarios
      ((start id startup scenarios).run sha256 parseDuration inputs) :=
  Machine.run_invariant
    (fun _ input sourced => sourced.step sha256 parseDuration input)
    (sourced_start id startup scenarios) inputs

end

end Relay

/-! ## Traces of a proxy -/

/-- A connection the proxy has accepted. -/
inductive Connection where
  | relayed (id : Nat) (startup : StartupMetadata) (inputs : List Input)
  /-- A cancel request, passed on and closed. -/
  | cancelled (id : Nat)
  /-- A connection that fails before the relay loop. -/
  | refused (id : Nat) (detail : String)

namespace Connection

/-- What the task of a connection records when it ends. -/
def closed (id : Nat) : Option Exit → List Record
  | none => []
  | some .ok => [.lifecycle id "connection.closed" ""]
  | some (.error message) => [.lifecycle id "connection.closed" message]

/-- The records of one connection. -/
def records
    (sha256 : Bytes → String)
    (parseDuration : String → Except String Nat)
    (scenarios : List Scenario) : Connection → List Record
  | .relayed id startup inputs =>
      let r :=
        (Relay.start id startup scenarios).run sha256 parseDuration inputs
      r.trace ++ closed id r.exit
  | .cancelled id =>
      .lifecycle id "cancel.forwarded" "" :: closed id (some .ok)
  | .refused id detail => closed id (some (.error detail))

theorem closed_genuine
    (scenarios : List Scenario)
    (id : Nat)
    (exit : Option Exit) :
    Genuine scenarios (closed id exit) := by
  intro e s member
  rcases exit with _ | _ | message <;> simp [closed] at member

theorem records_genuine
    (sha256 : Bytes → String)
    (parseDuration : String → Except String Nat)
    (scenarios : List Scenario)
    (connection : Connection) :
    Genuine scenarios
      (connection.records sha256 parseDuration scenarios) := by
  intro e s member
  cases connection with
  | relayed id startup inputs =>
      rcases List.mem_append.mp member with relayed | ended
      · exact (Relay.sourced_run sha256 parseDuration id startup scenarios
          inputs).trace e s relayed
      · exact closed_genuine scenarios id _ e s ended
  | cancelled id =>
      simp [records, closed] at member
  | refused id detail =>
      exact closed_genuine scenarios id (some (.error detail)) e s member

end Connection

namespace Trace

/--
Replay accepts every trace of the proxy.  However many connections there are
and however their records are interleaved, if a fault has fired then the replay
succeeds, its scenarios are valid and distinct, and every fault has one that
keeps its name, action and event and selects the event it fired at.
-/
theorem replay_accepts
    (sha256 : Bytes → String)
    (parseDuration : String → Except String Nat)
    (scenarios : List Scenario)
    (valid : ∀ s ∈ scenarios, s.validate parseDuration = .ok ())
    (connections : List Connection)
    (records : List Record)
    (interleaved :
      Interleaving
        (connections.map
          (Connection.records sha256 parseDuration scenarios))
        records)
    (fired : ∃ e s, Record.fault e s ∈ records) :
    ∃ schedules,
      replay parseDuration records = .ok schedules ∧
      (∀ scheduled ∈ schedules,
        scheduled.validate parseDuration = .ok ()) ∧
      schedules.Nodup ∧
      ∀ e s, Record.fault e s ∈ records →
        ∃ scheduled ∈ schedules,
          scheduled.name = s.name ∧ scheduled.action = s.action ∧
            scheduled.when.event = s.when.event ∧
            scheduled.selects e = true := by
  have due (e : Event) (s : Scenario) (member : Record.fault e s ∈ records) :
      Due scenarios e s := by
    obtain ⟨source, isSource, found⟩ := interleaved.exists_source member
    obtain ⟨connection, -, rfl⟩ := List.mem_map.mp isSource
    exact Connection.records_genuine sha256 parseDuration scenarios connection
      e s found
  have accepted (e : Event) (s : Scenario)
      (member : Record.fault e s ∈ records) :
      (reschedule e s).validate parseDuration = .ok () :=
    reschedule_valid (valid s (due e s member).listed) (due e s member).named
      (due e s member).row
  obtain ⟨schedules, looped⟩ := replayLoop_ok accepted []
  have replayed := replayed_of_ok looped
  obtain ⟨e, s, fault⟩ := fired
  have nonempty : schedules.isEmpty = false := by
    cases schedules with
    | nil =>
        have member := replayed.repeats e s fault
        simp at member
    | cons _ _ =>
        rfl
  refine ⟨schedules, ?_, ?_, replayed.nodup List.nodup_nil, ?_⟩
  · unfold replay
    rw [looped]
    simp [bind, Except.bind, nonempty]
  · intro scheduled member
    rcases replayed.source scheduled member with old | ⟨_, _, _, _, isValid⟩
    · simp at old
    · exact isValid
  · intro e s member
    refine ⟨reschedule e s, replayed.repeats e s member, rfl, rfl,
      (due e s member).named, ?_⟩
    exact reschedule_selects (due e s member).selected

/-- Two connections that send a query each. -/
def queriedTwice : List Connection :=
  [.relayed 1 default
      [.client (.frame (message 'Q' (ascii "SELECT 1" ++ [0])))],
    .relayed 2 default
      [.client (.frame (message 'Q' (ascii "SELECT 2" ++ [0]))),
        .client .eof]]

theorem replay_accepts_queriedTwice :
    ∃ schedules,
      replay (fun _ => .ok 0)
        (queriedTwice.map
          (Connection.records sampleSha256 (fun _ => .ok 0)
            [dropQuery none])).flatten = .ok schedules ∧
      schedules.Nodup := by
  obtain ⟨schedules, accepted, -, distinct, -⟩ :=
    replay_accepts sampleSha256 (fun _ => .ok 0) [dropQuery none]
      (by simp only [List.mem_singleton, forall_eq]; rfl) queriedTwice
      (queriedTwice.map
        (Connection.records sampleSha256 (fun _ => .ok 0)
          [dropQuery none])).flatten
      (Interleaving.append (Interleaving.append (.done (by simp))))
      ⟨firstQuery, dropQuery none, by decide +kernel⟩
  exact ⟨schedules, accepted, distinct⟩

end Trace

end Pgfault
