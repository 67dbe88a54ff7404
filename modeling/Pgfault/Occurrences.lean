import Pgfault.Machine
import Pgfault.Scenario

namespace Pgfault

/-!
# Occurrences

A matcher is a counter with early exits.  What it answers is decided by the
number of wanted events before: it fires at the wanted event that makes the
number equal to its occurrence, and at no other.
-/

/-- An event that satisfies every filter of a scenario. -/
structure Wanted (s : Scenario) (e : Event) : Prop where
  reliable : e.semanticReliable = true
  named : e.event = s.when.event
  applicationName :
    ∀ text ∈ s.selector.applicationName,
      e.startup.applicationName = some text
  user : ∀ text ∈ s.selector.user, e.startup.user = some text
  database : ∀ text ∈ s.selector.database, e.startup.database = some text
  connectionOrdinal :
    ∀ n ∈ s.selector.connectionOrdinal, e.connectionId = n
  transaction : ∀ n ∈ s.selector.transaction, e.transactionEpoch = n
  queryCycle : ∀ n ∈ s.selector.queryCycle, e.queryCycle = n
  statement : ∀ n ∈ s.selector.statement, e.statementIndex = n
  sqlFingerprint :
    ∀ text ∈ s.selector.sqlFingerprint, e.sqlFingerprint = text
  statementClass :
    s.when.statementClass = [] ∨ e.statementClass ∈ s.when.statementClass
  row : ∀ n ∈ s.when.row, e.rowIndex = some n

namespace Matcher

/-- Whether a fresh matcher of a scenario would count an event. -/
def wants (s : Scenario) (e : Event) : Bool :=
  e.semanticReliable && e.event == s.when.event && s.selects e

theorem counts_eq (m : Matcher) (e : Event) :
    m.counts e = (!m.fired && wants m.scenario e) := by
  unfold counts wants
  cases e.semanticReliable <;> cases m.fired <;> simp

theorem wants_iff
    (s : Scenario)
    (e : Event) :
    wants s e = true ↔ Wanted s e := by
  have all {α : Type} (o : Option α) (p : α → Bool) :
      o.all p = true ↔ ∀ a ∈ o, p a = true := by
    cases o <;> simp
  simp only [wants, Scenario.selects, Bool.and_eq_true, Bool.or_eq_true, all,
    beq_iff_eq, List.isEmpty_iff, List.contains_iff_mem]
  constructor
  · rintro ⟨⟨reliable, named⟩,
      ⟨⟨⟨⟨⟨⟨⟨⟨⟨application, user⟩, database⟩, connection⟩, transaction⟩,
        cycle⟩, statement⟩, fingerprint⟩, statementClass⟩, row⟩⟩
    exact ⟨reliable, named, application, user, database, connection,
      transaction, cycle, statement, fingerprint, statementClass, row⟩
  · rintro ⟨reliable, named, application, user, database, connection,
      transaction, cycle, statement, fingerprint, statementClass, row⟩
    exact ⟨⟨reliable, named⟩,
      ⟨⟨⟨⟨⟨⟨⟨⟨⟨application, user⟩, database⟩, connection⟩, transaction⟩,
        cycle⟩, statement⟩, fingerprint⟩, statementClass⟩, row⟩⟩

instance (s : Scenario) (e : Event) : Decidable (Wanted s e) :=
  decidable_of_iff (wants s e = true) (wants_iff s e)

/-- The answers of a matcher to some events. -/
def answers (m : Matcher) : List Event → List Bool
  | [] => []
  | e :: rest => (m.observe e).1 :: (m.observe e).2.answers rest

/-- The matcher behind some events. -/
def behind (m : Matcher) (es : List Event) : Matcher :=
  Machine.run (fun m e => (m.observe e).2) m es

/-- The wanted events among some. -/
def occurrences (s : Scenario) (es : List Event) : Nat :=
  es.countP fun e => decide (Wanted s e)

/-- The occurrence a scenario waits for. -/
def awaited (s : Scenario) : Nat :=
  s.when.occurrence.getD 1

/-- An answer is given by the matcher behind the events before. -/
theorem answers_getElem?
    (m : Matcher)
    (es : List Event)
    (i : Nat) :
    (m.answers es)[i]? =
      es[i]?.map fun e => ((m.behind (es.take i)).observe e).1 := by
  induction es generalizing m i with
  | nil =>
      simp [answers]
  | cons e rest inductionHypothesis =>
      cases i with
      | zero =>
          rfl
      | succ i =>
          simp only [answers, List.getElem?_cons_succ, List.take_succ_cons]
          rw [inductionHypothesis]
          rfl

@[simp] theorem behind_scenario
    (m : Matcher)
    (es : List Event) :
    (m.behind es).scenario = m.scenario := by
  induction es generalizing m with
  | nil =>
      rfl
  | cons e rest inductionHypothesis =>
      exact (inductionHypothesis _).trans (m.observe_scenario e)

/-- What a matcher remembers once `n` wanted events have passed. -/
structure HasSeen (s : Scenario) (n : Nat) (m : Matcher) : Prop where
  scenario : m.scenario = s
  seen : m.seen = min n (awaited s)
  fired : m.fired = decide (awaited s ≤ n)

theorem hasSeen_new
    {s : Scenario}
    (positive : 0 < awaited s) :
    HasSeen s 0 (new s) where
  scenario := rfl
  seen := (Nat.zero_min _).symm
  fired := by simp [new, Nat.not_le.mpr positive]

/-- An event that is not wanted passes unnoticed. -/
theorem observe_of_unwanted
    {m : Matcher}
    {e : Event}
    (unwanted : ¬ Wanted m.scenario e) :
    m.observe e = (false, m) := by
  have refused : wants m.scenario e = false := by
    rw [← Bool.not_eq_true, wants_iff]
    exact unwanted
  simp [observe, counts_eq, refused]

/-- A matcher fires only at an event it wants. -/
theorem wants_of_answers
    {m : Matcher}
    {es : List Event}
    {i : Nat}
    (fires : (m.answers es)[i]? = some true) :
    ∃ e, es[i]? = some e ∧ wants m.scenario e = true := by
  rw [answers_getElem?, Option.map_eq_some_iff] at fires
  obtain ⟨e, isAt, fired⟩ := fires
  refine ⟨e, isAt, ?_⟩
  by_contra refused
  have unwanted : ¬ Wanted (m.behind (es.take i)).scenario e := by
    rw [behind_scenario, ← wants_iff]
    exact refused
  rw [observe_of_unwanted unwanted] at fired
  cases fired

/-- A wanted event is counted until the awaited one has come. -/
theorem observe_of_wanted
    {m : Matcher}
    {e : Event}
    (wanted : Wanted m.scenario e)
    (unfired : m.fired = false) :
    m.observe e =
      (decide (m.seen + 1 = awaited m.scenario),
        { m with
          seen := m.seen + 1
          fired := decide (m.seen + 1 = awaited m.scenario) }) := by
  have counted : m.counts e = true := by
    rw [counts_eq, unfired, (wants_iff m.scenario e).mpr wanted]
    rfl
  by_cases last : m.seen + 1 = awaited m.scenario
  · have reached : m.seen + 1 = m.scenario.when.occurrence.getD 1 := last
    simp [observe, counted, awaited, reached]
  · have unreached : m.seen + 1 ≠ m.scenario.when.occurrence.getD 1 := last
    simp [observe, counted, awaited, unreached, unfired]

/-- The answer to one event, and what is remembered of it. -/
theorem HasSeen.observe
    {s : Scenario}
    {n : Nat}
    {m : Matcher}
    (before : HasSeen s n m)
    (e : Event) :
    ((m.observe e).1 = true ↔ Wanted s e ∧ n + 1 = awaited s) ∧
      HasSeen s (n + occurrences s [e]) (m.observe e).2 := by
  obtain ⟨rfl, seen, fired⟩ := before
  by_cases wanted : Wanted m.scenario e
  · have one : occurrences m.scenario [e] = 1 := by
      simp [occurrences, wanted]
    rw [one]
    by_cases passed : awaited m.scenario ≤ n
    · rw [observe_of_fired e (by simp [fired, passed])]
      refine ⟨?_, rfl, ?_, ?_⟩
      · simp only [Bool.false_eq_true, false_iff, not_and]
        intro _
        omega
      · simp only
        omega
      · have further : awaited m.scenario ≤ n + 1 := by omega
        simp [fired, passed, further]
    · have counted : m.seen = n := by omega
      rw [observe_of_wanted wanted (by simp [fired, passed]), counted]
      refine ⟨by simp [wanted], rfl, ?_, ?_⟩
      · simp only
        omega
      · have same : n + 1 = awaited m.scenario ↔ awaited m.scenario ≤ n + 1 :=
          by omega
        simp only [same]
  · have none : occurrences m.scenario [e] = 0 := by
      simp [occurrences, wanted]
    rw [observe_of_unwanted wanted, none]
    exact ⟨by simp [wanted], rfl, seen, fired⟩

/-- What is remembered of some events. -/
theorem HasSeen.behind
    {s : Scenario}
    {n : Nat}
    {m : Matcher}
    (before : HasSeen s n m)
    (es : List Event) :
    HasSeen s (n + occurrences s es) (m.behind es) := by
  induction es generalizing n m with
  | nil =>
      exact before
  | cons e rest inductionHypothesis =>
      have later := inductionHypothesis (before.observe e).2
      have split :
          occurrences s (e :: rest) =
            occurrences s [e] + occurrences s rest := by
        unfold occurrences
        rw [← List.countP_append]
        rfl
      rw [split, ← Nat.add_assoc]
      exact later

theorem occurrences_take_succ
    {s : Scenario}
    {es : List Event}
    {i : Nat}
    {e : Event}
    (isAt : es[i]? = some e)
    (wanted : Wanted s e) :
    occurrences s (es.take (i + 1)) = occurrences s (es.take i) + 1 := by
  unfold occurrences
  rw [List.take_add_one, isAt, List.countP_append]
  simp [wanted]

theorem occurrences_mono
    (s : Scenario)
    (es : List Event)
    {i j : Nat}
    (le : i ≤ j) :
    occurrences s (es.take i) ≤ occurrences s (es.take j) :=
  (List.take_sublist_take_left le).countP_le

/-- A fresh matcher fires at the awaited one of the wanted events. -/
theorem answers_iff
    {s : Scenario}
    (positive : 0 < awaited s)
    (es : List Event)
    (i : Nat) :
    ((new s).answers es)[i]? = some true ↔
      ∃ e, es[i]? = some e ∧ Wanted s e ∧
        occurrences s (es.take i) + 1 = awaited s := by
  have seen := (hasSeen_new positive).behind (es.take i)
  rw [Nat.zero_add] at seen
  rw [answers_getElem?, Option.map_eq_some_iff]
  constructor
  · rintro ⟨e, isAt, fired⟩
    exact ⟨e, isAt, (seen.observe e).1.mp fired⟩
  · rintro ⟨e, isAt, due⟩
    exact ⟨e, isAt, (seen.observe e).1.mpr due⟩

/-- A matcher for the first occurrence fires at the first wanted event. -/
theorem answers_first
    {s : Scenario}
    (once : s.when.occurrence = some 1)
    (es : List Event)
    (i : Nat) :
    ((new s).answers es)[i]? = some true ↔
      (∃ e, es[i]? = some e ∧ wants s e = true) ∧
        ∀ k < i, ∀ e, es[k]? = some e → wants s e = false := by
  have one : awaited s = 1 := by simp [awaited, once]
  have none :
      occurrences s (es.take i) = 0 ↔
        ∀ k < i, ∀ e, es[k]? = some e → wants s e = false := by
    unfold occurrences
    rw [List.countP_eq_zero]
    simp only [decide_eq_true_eq, ← wants_iff, Bool.not_eq_true]
    constructor
    · intro refused k early e isAt
      refine refused e (List.mem_iff_getElem?.mpr ⟨k, ?_⟩)
      rw [List.getElem?_take_of_lt early]
      exact isAt
    · intro refused e member
      obtain ⟨k, isAt⟩ := List.mem_iff_getElem?.mp member
      rw [List.getElem?_take] at isAt
      split at isAt
      · rename_i early
        exact refused k early e isAt
      · cases isAt
  rw [answers_iff (by omega), one, ← none]
  constructor
  · rintro ⟨e, isAt, wanted, due⟩
    exact ⟨⟨e, isAt, (wants_iff s e).mpr wanted⟩, by omega⟩
  · rintro ⟨⟨e, isAt, wanted⟩, unseen⟩
    exact ⟨e, isAt, (wants_iff s e).mp wanted, by omega⟩

/-- Fewer wanted events than awaited: the matcher has not fired yet. -/
theorem lt_awaited_iff
    {s : Scenario}
    (positive : 0 < awaited s)
    (es : List Event)
    (i : Nat) :
    occurrences s (es.take i) < awaited s ↔
      ∀ j < i, ((new s).answers es)[j]? ≠ some true := by
  constructor
  · intro fewer j early answer
    obtain ⟨e, isAt, wanted, due⟩ := (answers_iff positive es j).mp answer
    have step := occurrences_take_succ isAt wanted
    have later := occurrences_mono s es (show j + 1 ≤ i from early)
    omega
  · intro silent
    induction i with
    | zero =>
        simpa [occurrences] using positive
    | succ i inductionHypothesis =>
        have fewer := inductionHypothesis fun j early =>
          silent j (Nat.lt_succ_of_lt early)
        cases isAt : es[i]? with
        | none =>
            have same : es.take (i + 1) = es.take i := by
              rw [List.take_add_one, isAt]
              simp
            rw [same]
            exact fewer
        | some e =>
            by_cases wanted : Wanted s e
            · have step := occurrences_take_succ isAt wanted
              have undue :
                  occurrences s (es.take i) + 1 ≠ awaited s := by
                intro due
                exact silent i (Nat.lt_succ_self i)
                  ((answers_iff positive es i).mpr ⟨e, isAt, wanted, due⟩)
              omega
            · have same :
                  occurrences s (es.take (i + 1)) =
                    occurrences s (es.take i) := by
                unfold occurrences
                rw [List.take_add_one, isAt, List.countP_append]
                simp [wanted]
              rw [same]
              exact fewer

/--
Occurrences.  A fresh matcher with an occurrence `k` answers `true` at the `k`-th
wanted event and nowhere else.  Other events leave it as it is, it has counted
the wanted events up to `k`, and at every point it needs the gate for exactly its
own event, until it has fired.
-/
theorem fires_at_occurrence
    (s : Scenario)
    (oneBased : s.when.occurrence ≠ some 0)
    (es : List Event) :
    (∀ i,
      ((new s).answers es)[i]? = some true ↔
        ∃ e, es[i]? = some e ∧ Wanted s e ∧
          occurrences s (es.take i) + 1 = awaited s) ∧
      (∀ i j : Nat,
        ((new s).answers es)[i]? = some true →
        ((new s).answers es)[j]? = some true →
        i = j) ∧
      (∀ i,
        ((new s).behind (es.take i)).seen =
          min (occurrences s (es.take i)) (awaited s)) ∧
      (∀ (m : Matcher) (e : Event),
        ¬ Wanted m.scenario e → m.observe e = (false, m)) ∧
      ∀ i boundary,
        ((new s).behind (es.take i)).needsGate boundary = true ↔
          boundary = s.when.event ∧
            ∀ j < i, ((new s).answers es)[j]? ≠ some true := by
  have positive : 0 < awaited s := by
    unfold awaited
    cases given : s.when.occurrence with
    | none =>
        exact Nat.one_pos
    | some k =>
        rw [given] at oneBased
        exact Nat.pos_of_ne_zero fun zero => oneBased (congrArg some zero)
  have seen (i : Nat) :
      HasSeen s (occurrences s (es.take i)) ((new s).behind (es.take i)) := by
    have counted := (hasSeen_new positive).behind (es.take i)
    rw [Nat.zero_add] at counted
    exact counted
  refine ⟨answers_iff positive es, ?_, fun i => (seen i).seen,
    fun m e => observe_of_unwanted, ?_⟩
  · have ordered {i j : Nat} (fired : ((new s).answers es)[i]? = some true)
        (again : ((new s).answers es)[j]? = some true) :
        ¬ i < j := by
      intro earlier
      obtain ⟨e, -, -, due⟩ := (answers_iff positive es j).mp again
      exact (lt_awaited_iff positive es j).mp (by omega) i earlier fired
    intro i j fired again
    have notEarlier := ordered fired again
    have notLater := ordered again fired
    omega
  · intro i boundary
    rw [← lt_awaited_iff positive es i]
    simp only [needsGate, (seen i).fired, (seen i).scenario,
      Bool.and_eq_true, Bool.not_eq_true', decide_eq_false_iff_not,
      beq_iff_eq, Nat.not_le]
    constructor
    · rintro ⟨fewer, rfl⟩
      exact ⟨rfl, fewer⟩
    · rintro ⟨rfl, fewer⟩
      exact ⟨fewer, rfl⟩

/-- The second `SELECT` of a user. -/
def secondSelect : Scenario where
  version := 1
  name := "second select"
  selector := { user := some "alice" }
  when :=
    { event := "query.received"
      occurrence := some 2
      statementClass := [.select] }
  action := { suppress := some ⟨true⟩ }

/-- A query of that user. -/
def queried (reliable : Bool) (statementClass : StatementClass) : Event where
  connectionId := 1
  semanticReliable := reliable
  startup := ⟨some "alice", none, none⟩
  transactionEpoch := 1
  queryCycle := 1
  statementIndex := 1
  statementClass := statementClass
  sqlFingerprint := ""
  event := "query.received"
  occurrence := 1
  rowIndex := none

theorem fires_at_occurrence_secondSelect :
    let es := [queried true .select, queried false .select,
      queried true .insert, queried true .select, queried true .select]
    ((new secondSelect).answers es)[3]? = some true ∧
      ((new secondSelect).behind (es.take 3)).needsGate "query.received" =
        true := by
  obtain ⟨fires, -, -, -, gates⟩ :=
    fires_at_occurrence secondSelect (by decide)
      [queried true .select, queried false .select, queried true .insert,
        queried true .select, queried true .select]
  exact ⟨(fires 3).mpr ⟨_, rfl, by decide, by decide⟩,
    (gates 3 _).mpr ⟨rfl, by decide⟩⟩

end Matcher

end Pgfault
