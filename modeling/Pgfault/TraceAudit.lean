import Mathlib.Data.List.Nodup
import Mathlib.Data.List.Perm.Subperm
import Pgfault.Firing

namespace Pgfault

open Matcher

/-!
# Auditing a trace

A trace is enough to check the proxy.  Its semantic records, in order, decide
which faults had to fire and where: a scenario is due at the wanted event that
completes its occurrence.  `audit` computes the faults from the semantic records
by counting, without matchers, and `trace_explained` says that the relay writes
exactly what the auditor expects.

The events themselves are numbered without gaps per name (`trace_numbered`), so
no two of them are equal.
-/

/-! ## Events are numbered -/

/-- How many of some events bear a name. -/
def named (name : String) (es : List Event) : Nat :=
  es.countP fun e => e.event == name

theorem named_append (name : String) (es later : List Event) :
    named name (es ++ later) = named name es + named name later :=
  List.countP_append

namespace ConnectionState

/-- Events numbered from the counters of a state, and the counters behind. -/
structure Counts
    (s : ConnectionState)
    (es : List Event)
    (t : ConnectionState) : Prop where
  numbered :
    ∀ k e,
      es[k]? = some e →
      e.occurrence = s.counters e.event + named e.event (es.take k) + 1
  counters : ∀ name, t.counters name = s.counters name + named name es

theorem Counts.silent
    {s t : ConnectionState}
    (same : t.counters = s.counters) :
    Counts s [] t where
  numbered := by simp
  counters name := by simp [same, named]

/-- Other fields play no part. -/
theorem Counts.of_same
    {s t s' t' : ConnectionState}
    {es : List Event}
    (counts : Counts s es t)
    (before : s'.counters = s.counters)
    (after : t'.counters = t.counters) :
    Counts s' es t' := by
  constructor
  · rw [before]
    exact counts.numbered
  · rw [before, after]
    exact counts.counters

theorem Counts.append
    {s t u : ConnectionState}
    {es later : List Event}
    (first : Counts s es t)
    (second : Counts t later u) :
    Counts s (es ++ later) u where
  numbered := by
    intro k e isAt
    by_cases early : k < es.length
    · rw [List.getElem?_append_left early] at isAt
      rw [List.take_append_of_le_length (Nat.le_of_lt early)]
      exact first.numbered k e isAt
    · have late : es.length ≤ k := Nat.le_of_not_lt early
      rw [List.getElem?_append_right late] at isAt
      have shape :
          (es ++ later).take k = es ++ later.take (k - es.length) := by
        rw [List.take_append, List.take_of_length_le late]
      rw [second.numbered _ e isAt, first.counters, shape, named_append]
      omega
  counters := by
    intro name
    rw [second.counters, first.counters, named_append, Nat.add_assoc]

theorem event_counts (s : ConnectionState) (name : String) (front : Bool) :
    Counts s [(s.event name front).1] (s.event name front).2 where
  numbered := by
    intro k e isAt
    cases k with
    | zero =>
        simp only [List.getElem?_cons_zero, Option.some.injEq] at isAt
        subst isAt
        simp [event, named]
    | succ k =>
        simp at isAt
  counters := by
    intro other
    by_cases same : other = name
    · subst same
      simp [event, named]
    · have different : ¬ name = other := fun isSame => same isSame.symm
      simp [event, named, Function.update_of_ne same, different]

theorem events_counts
    (s : ConnectionState)
    (front : Bool)
    (names : List String) :
    Counts s (s.events front names).1 (s.events front names).2 := by
  induction names generalizing s with
  | nil =>
      exact Counts.silent rfl
  | cons name rest inductionHypothesis =>
      exact (event_counts s name front).append (inductionHypothesis _)

theorem cycle_counters
    (s : ConnectionState)
    (extended : Bool)
    (update : Cycle → Cycle) :
    (s.cycle extended update).counters = s.counters := by
  unfold cycle openCycle
  split <;> rfl

theorem openCycle_counters (s : ConnectionState) (extended : Bool) :
    (s.openCycle extended).counters = s.counters := by
  unfold openCycle
  split <;> rfl

/-- A client frame counts nothing before its events. -/
theorem receive_counters
    (sha256 : Bytes → String)
    (s : ConnectionState)
    (f : Frame) :
    (s.receive sha256 f).1.counters = s.counters := by
  unfold receive
  cases f.frontendTag with
  | parse =>
      unfold receiveParse
      rw [openCycle_counters]
      split
      · split
        · exact cycle_counters _ _ _
        · rfl
      · rfl
  | bind =>
      unfold receiveBind
      rw [openCycle_counters]
      split
      · split
        · split
          · exact cycle_counters _ _ _
          · rfl
        · rfl
      · rfl
  | close =>
      simp only [receiveClose]
      split
      · rfl
      · rename_i kind rest _
        split
        · rename_i name _ _
          have queued := cycle_counters s true (Cycle.queue (.close kind name))
          split
          · exact queued
          · split
            · exact queued
            · exact queued
        · rfl
  | query =>
      exact cycle_counters _ _ _
  | execute =>
      exact cycle_counters _ _ _
  | sync =>
      exact cycle_counters _ _ _
  | _ =>
      rfl

theorem frontend_counts
    (sha256 : Bytes → String)
    (s : ConnectionState)
    (f : Frame) :
    Counts s (s.frontend sha256 f).1 (s.frontend sha256 f).2 := by
  have allocated :
      ((s.receive sha256 f).1.allocateEpoch f).counters = s.counters := by
    rw [← receive_counters sha256 s f]
    unfold allocateEpoch
    split <;> rfl
  exact (events_counts _ true _).of_same allocated.symm rfl

theorem endCycle_counters (s : ConnectionState) (status : TxState) :
    (s.endCycle status).counters = s.counters := by
  unfold endCycle
  simp only
  split <;> split <;> rfl

theorem backend_counts (s : ConnectionState) (f : Frame) :
    Counts s (s.backend f).1 (s.backend f).2 := by
  have acknowledged (tag : BackendTag) :
      Counts s [] (s.acknowledge tag) := by
    refine Counts.silent ?_
    unfold acknowledge
    rw [confirm_eq]
  have parameter : (s.parameterStatus f.body).counters = s.counters := by
    unfold parameterStatus
    repeat' split
    all_goals rfl
  unfold backend
  cases f.backendTag with
  | parameterStatus =>
      exact Counts.silent parameter
  | parseComplete =>
      exact acknowledged _
  | bindComplete =>
      exact acknowledged _
  | closeComplete =>
      exact acknowledged _
  | rowDescription =>
      exact events_counts _ _ _
  | dataRow =>
      exact (events_counts _ _ _).of_same rfl rfl
  | commandComplete =>
      exact (events_counts _ _ _).of_same rfl rfl
  | errorResponse =>
      exact (events_counts _ _ _).of_same rfl rfl
  | portalSuspended =>
      exact Counts.silent rfl
  | readyForQuery =>
      cases statusOf f.body with
      | none =>
          exact Counts.silent rfl
      | some status =>
          have ready := events_counts s false (s.readyNames status)
          have settled :=
            events_counts
              { (s.events false (s.readyNames status)).2 with
                txState := status } false ["connection.ready"]
          exact ready.append
            (settled.of_same rfl (endCycle_counters _ status))
  | _ =>
      exact Counts.silent rfl

/-- Calls number their events behind those of earlier calls. -/
theorem raisedBy_counts
    (sha256 : Bytes → String)
    (s : ConnectionState)
    (calls : List Call) :
    Counts s (s.raisedBy sha256 calls) (s.observe sha256 calls) := by
  induction calls generalizing s with
  | nil =>
      exact Counts.silent rfl
  | cons call rest inductionHypothesis =>
      refine Counts.append ?_ (inductionHypothesis _)
      cases call with
      | frontend f =>
          exact frontend_counts sha256 s f
      | forwarded =>
          exact event_counts s "query.forwarded" true
      | backend f =>
          exact backend_counts s f

/-- Every event of a call carries the number of the connection. -/
theorem connectionId_of_called
    {sha256 : Bytes → String}
    {s : ConnectionState}
    {call : Call}
    {e : Event}
    (member : e ∈ (History.called sha256 s call).1) :
    e.connectionId = s.id := by
  cases call with
  | frontend f =>
      exact (mem_events_rest member).1.trans (accept_identity sha256 s f).1
  | forwarded =>
      rw [List.mem_singleton.mp member]
      rfl
  | backend f =>
      exact (mem_backend_rest member).1

theorem connectionId_of_raisedBy
    {sha256 : Bytes → String}
    {s : ConnectionState}
    {calls : List Call}
    {e : Event}
    (member : e ∈ s.raisedBy sha256 calls) :
    e.connectionId = s.id := by
  induction calls generalizing s with
  | nil =>
      simp [raisedBy] at member
  | cons call rest inductionHypothesis =>
      rcases List.mem_append.mp member with now | later
      · exact connectionId_of_called now
      · exact (inductionHypothesis later).trans (called_keeps sha256 s call).id

/-- Events with numbers are told apart by them. -/
theorem Counts.nodup
    {s t : ConnectionState}
    {es : List Event}
    (counts : Counts s es t) :
    es.Nodup := by
  rw [List.nodup_iff_getElem?_ne_getElem?]
  intro i j before inside same
  obtain ⟨e, isAt⟩ : ∃ e, es[j]? = some e :=
    ⟨_, List.getElem?_eq_getElem inside⟩
  rw [isAt] at same
  have earlier := counts.numbered i e same
  have later := counts.numbered j e isAt
  -- The event itself is among those in front of its second place.
  have fewer : named e.event (es.take i) + 1 ≤ named e.event (es.take j) := by
    have step : named e.event (es.take (i + 1)) =
        named e.event (es.take i) + 1 := by
      rw [List.take_add_one, same, named_append]
      simp [named]
    rw [← step]
    exact (List.take_sublist_take_left before).countP_le
  omega

end ConnectionState

namespace Record

/-- The event of a semantic record. -/
def semantic? : Record → Option Event
  | .semantic e => some e
  | _ => none

/-- The event and the scenario of a fault record. -/
def fault? : Record → Option (Event × Scenario)
  | .fault e s => some (e, s)
  | _ => none

end Record

namespace Trace

/-- The events a trace reports. -/
def semantics (records : List Record) : List Event :=
  records.filterMap Record.semantic?

/-- The faults a trace reports. -/
def faults (records : List Record) : List (Event × Scenario) :=
  records.filterMap Record.fault?

/-- The scenarios due at an event, given the events before it. -/
def due
    (scenarios : List Scenario)
    (before : List Event)
    (e : Event) : List Scenario :=
  scenarios.filter fun s =>
    decide (Wanted s e) && occurrences s before + 1 == awaited s

/-- The records an auditor expects of some events behind others. -/
def audit (scenarios : List Scenario) :
    List Event → List Event → List Record
  | _, [] => []
  | before, e :: rest =>
      .semantic e :: (due scenarios before e).map (Record.fault e) ++
        audit scenarios (before ++ [e]) rest

@[simp] theorem semantics_append (records later : List Record) :
    semantics (records ++ later) = semantics records ++ semantics later := by
  simp [semantics]

@[simp] theorem faults_append (records later : List Record) :
    faults (records ++ later) = faults records ++ faults later := by
  simp [faults]

theorem semantics_map_fault (e : Event) (fired : List Scenario) :
    semantics (fired.map (Record.fault e)) = [] := by
  simp [semantics, List.filterMap_eq_nil_iff, Record.semantic?]

theorem faults_map_fault (e : Event) (fired : List Scenario) :
    faults (fired.map (Record.fault e)) = fired.map fun s => (e, s) := by
  induction fired with
  | nil =>
      rfl
  | cons s rest inductionHypothesis =>
      simp only [faults, List.map_cons] at inductionHypothesis ⊢
      rw [List.filterMap_cons_some (by rfl), inductionHypothesis]

@[simp] theorem mem_faults {records : List Record} {e : Event} {s : Scenario} :
    (e, s) ∈ faults records ↔ Record.fault e s ∈ records := by
  simp only [faults, List.mem_filterMap]
  constructor
  · rintro ⟨record, member, found⟩
    cases record with
    | semantic e' =>
        cases found
    | fault e' s' =>
        cases found
        exact member
    | lifecycle id event detail =>
        cases found
  · intro member
    exact ⟨_, member, rfl⟩

/-! ## What the matchers report -/

theorem semantics_reports
    (matchers : List Matcher)
    (es : List Event) :
    semantics (reports matchers es) = es := by
  induction es generalizing matchers with
  | nil =>
      rfl
  | cons e rest inductionHypothesis =>
      have first (records : List Record) :
          semantics (.semantic e :: records) = e :: semantics records := rfl
      rw [reports, List.cons_append, first, semantics_append,
        semantics_map_fault, inductionHypothesis, List.nil_append]

/-- Fresh matchers behind some events fire where the auditor says. -/
theorem firing_eq_due
    {scenarios : List Scenario}
    (positive : ∀ s ∈ scenarios, 0 < awaited s)
    (before : List Event)
    (e : Event) :
    firing (allBehind (scenarios.map new) before) e =
      due scenarios before e := by
  have decided (s : Scenario) (listed : s ∈ scenarios) :
      (((new s).behind before).observe e).1 =
        (decide (Wanted s e) && occurrences s before + 1 == awaited s) := by
    have seen := (hasSeen_new (positive s listed)).behind before
    rw [Nat.zero_add] at seen
    have fires := (seen.observe e).1
    rw [Bool.eq_iff_iff, fires]
    simp
  unfold firing allBehind due
  rw [List.map_map, List.filter_map, List.map_map]
  have same : Matcher.scenario ∘ (fun m : Matcher => m.behind before) ∘ new =
      fun s => s := by
    funext s
    simp [new]
  rw [same, List.map_id']
  exact List.filter_congr fun s listed => decided s listed

/-- Fresh matchers report what the auditor expects. -/
theorem reports_eq_audit
    {scenarios : List Scenario}
    (positive : ∀ s ∈ scenarios, 0 < awaited s)
    (before es : List Event) :
    reports (allBehind (scenarios.map new) before) es =
      audit scenarios before es := by
  induction es generalizing before with
  | nil =>
      rfl
  | cons e rest inductionHypothesis =>
      rw [reports, audit, firing_eq_due positive, ← allBehind_append,
        inductionHypothesis]

/-! ## What the auditor expects -/

theorem audit_append
    (scenarios : List Scenario)
    (before es later : List Event) :
    audit scenarios before (es ++ later) =
      audit scenarios before es ++ audit scenarios (before ++ es) later := by
  induction es generalizing before with
  | nil =>
      simp [audit]
  | cons e rest inductionHypothesis =>
      simp [audit, inductionHypothesis]

/-- What is expected of some events comes first. -/
theorem audit_take_initial
    (scenarios : List Scenario)
    (before es : List Event)
    (k : Nat) :
    audit scenarios before (es.take k) <+: audit scenarios before es := by
  conv_rhs => rw [← List.take_append_drop k es, audit_append]
  exact List.prefix_append _ _

/-- A fault the auditor expects has its event in front of it. -/
theorem audit_split
    {scenarios : List Scenario}
    {before es : List Event}
    {earlier later : List Record}
    {e : Event}
    {s : Scenario}
    (shape : audit scenarios before es = earlier ++ .fault e s :: later) :
    ∃ k,
      es[k]? = some e ∧ s ∈ due scenarios (before ++ es.take k) e ∧
        audit scenarios before (es.take k) <+: earlier := by
  induction es generalizing before earlier with
  | nil =>
      simp [audit] at shape
  | cons first rest inductionHypothesis =>
      rw [audit, List.cons_append] at shape
      rcases List.cons_eq_append_iff.mp shape with
          ⟨-, isFirst⟩ | ⟨behind, rfl, split⟩
      · cases isFirst
      rcases List.append_eq_append_iff.mp split with
          ⟨middle, rfl, tail⟩ | ⟨middle, block, tail⟩
      · obtain ⟨k, isAt, isDue, isPrefix⟩ := inductionHypothesis tail
        refine ⟨k + 1, isAt, ?_, ?_⟩
        · simpa using isDue
        · simpa [audit] using isPrefix
      · -- The fault is one of the first event.
        have inBlock :
            Record.fault e s ∈ (due scenarios before first).map (.fault first) ∨
              middle = [] := by
          cases middle with
          | nil =>
              exact Or.inr rfl
          | cons record middle =>
              left
              rw [List.cons_append, List.cons.injEq] at tail
              rw [block, ← tail.1]
              simp
        rcases inBlock with listed | rfl
        · obtain ⟨s', isDue, same⟩ := List.mem_map.mp listed
          cases same
          exact ⟨0, rfl, by simpa using isDue, by simp [audit]⟩
        · have atOnce :
              audit scenarios (before ++ [first]) rest =
                [] ++ .fault e s :: later := by
            simpa using tail.symm
          obtain ⟨k, isAt, isDue, isPrefix⟩ := inductionHypothesis atOnce
          refine ⟨k + 1, isAt, by simpa using isDue, ?_⟩
          have nothing := List.prefix_nil.mp isPrefix
          have whole :
              behind = (due scenarios before first).map (.fault first) := by
            simpa using block.symm
          simp [audit, nothing, whole]

/-- The auditor expects a fault at every event where a scenario is due. -/
theorem fault_mem_audit
    {scenarios : List Scenario}
    {before es : List Event}
    {k : Nat}
    {e : Event}
    {s : Scenario}
    (isAt : es[k]? = some e)
    (isDue : s ∈ due scenarios (before ++ es.take k) e) :
    Record.fault e s ∈ audit scenarios before (es.take (k + 1)) := by
  rw [List.take_add_one, isAt, audit_append]
  refine List.mem_append_right _ ?_
  simp only [Option.toList_some, audit, List.append_nil]
  exact List.mem_cons_of_mem _ (List.mem_map_of_mem isDue)

/-- A fault the auditor expects, and the place of its event. -/
theorem mem_faults_audit
    {scenarios : List Scenario}
    {before es : List Event}
    {e : Event}
    {s : Scenario}
    (member : (e, s) ∈ faults (audit scenarios before es)) :
    ∃ j, es[j]? = some e ∧ s ∈ due scenarios (before ++ es.take j) e := by
  rw [mem_faults] at member
  obtain ⟨earlier, later, shape⟩ := List.append_of_mem member
  obtain ⟨j, isAt, isDue, -⟩ := audit_split shape
  exact ⟨j, isAt, isDue⟩

theorem occurrences_concat (s : Scenario) (es : List Event) (e : Event) :
    occurrences s (es ++ [e]) =
      occurrences s es + if Wanted s e then 1 else 0 := by
  unfold occurrences
  rw [List.countP_append, List.countP_singleton]
  simp

theorem count_due
    (scenarios : List Scenario)
    (before : List Event)
    (e : Event)
    (s : Scenario) :
    (due scenarios before e).count s =
      if Wanted s e ∧ occurrences s before + 1 = awaited s then
        scenarios.count s
      else 0 := by
  unfold due
  split
  · rename_i isDue
    refine List.count_filter ?_
    simpa using isDue
  · rename_i notDue
    refine List.count_eq_zero.mpr ?_
    intro member
    refine notDue ?_
    simpa using (List.mem_filter.mp member).2

/--
A scenario that has had its occurrence is not due again: of each scenario at most
its copies in the list fire, and none of them twice.
-/
theorem count_audit_le
    (scenarios : List Scenario)
    (s : Scenario)
    (before es : List Event) :
    ((faults (audit scenarios before es)).map Prod.snd).count s +
        (if awaited s ≤ occurrences s before then scenarios.count s else 0) ≤
      scenarios.count s := by
  induction es generalizing before with
  | nil =>
      simp only [audit, faults, List.filterMap_nil, List.map_nil,
        List.count_nil, Nat.zero_add]
      split <;> omega
  | cons e rest inductionHypothesis =>
      have later := inductionHypothesis (before ++ [e])
      have first (records : List Record) :
          faults (.semantic e :: records) = faults records := rfl
      have block :
          ((faults ((due scenarios before e).map (Record.fault e))).map
            Prod.snd).count s =
            if Wanted s e ∧ occurrences s before + 1 = awaited s then
              scenarios.count s
            else 0 := by
        rw [faults_map_fault, List.map_map, ← count_due]
        simp [Function.comp_def]
      rw [occurrences_concat] at later
      rw [audit, List.cons_append, first, faults_append, List.map_append,
        List.count_append, block]
      by_cases wanted : Wanted s e
      · simp only [wanted, if_true, true_and] at later ⊢
        split <;> split <;> split at later <;> omega
      · simp only [wanted, if_false, Nat.add_zero, false_and] at later ⊢
        omega

end Trace

namespace Scenario

/-- A valid scenario has a delay that is a duration. -/
theorem Valid.punctual
    {parseDuration : String → Except String Nat}
    {s : Scenario}
    (valid : s.Valid parseDuration) :
    Punctual parseDuration s := by
  intro delay isDelay
  have checked := valid.delay delay isDelay
  unfold validateDelay at checked
  cases parses : parseDuration delay.duration with
  | ok duration =>
      exact ⟨duration, rfl⟩
  | error message =>
      rw [parses] at checked
      cases checked

/-- A valid scenario waits for an occurrence. -/
theorem Valid.positive
    {parseDuration : String → Except String Nat}
    {s : Scenario}
    (valid : s.Valid parseDuration) :
    0 < awaited s := by
  unfold awaited
  cases chosen : s.when.occurrence with
  | none =>
      exact Nat.one_pos
  | some n =>
      refine Nat.pos_of_ne_zero ?_
      rintro rfl
      exact valid.oneBased.1 chosen

/-- A filter that has been kept or dropped. -/
def Loosened {α : Type} (tight loose : Option α) : Prop :=
  loose = none ∨ loose = tight

/-- A scenario with some filters of another one dropped. -/
structure Widens (tight loose : Scenario) : Prop where
  event : loose.when.event = tight.when.event
  occurrence : awaited loose ≤ awaited tight
  applicationName :
    Loosened tight.selector.applicationName loose.selector.applicationName
  user : Loosened tight.selector.user loose.selector.user
  database : Loosened tight.selector.database loose.selector.database
  connectionOrdinal :
    Loosened tight.selector.connectionOrdinal loose.selector.connectionOrdinal
  transaction : Loosened tight.selector.transaction loose.selector.transaction
  queryCycle : Loosened tight.selector.queryCycle loose.selector.queryCycle
  statement : Loosened tight.selector.statement loose.selector.statement
  sqlFingerprint :
    Loosened tight.selector.sqlFingerprint loose.selector.sqlFingerprint
  statementClass :
    loose.when.statementClass = [] ∨
      tight.when.statementClass ≠ [] ∧
        tight.when.statementClass ⊆ loose.when.statementClass
  row : Loosened tight.when.row loose.when.row

theorem Loosened.mem
    {α : Type}
    {tight loose : Option α}
    (loosened : Loosened tight loose)
    {value : α}
    (filtered : value ∈ loose) :
    value ∈ tight := by
  rcases loosened with rfl | rfl
  · cases filtered
  · exact filtered

/-- What the tighter scenario wants, the looser one wants too. -/
theorem Widens.wanted
    {tight loose : Scenario}
    (widens : Widens tight loose)
    {e : Event}
    (wanted : Wanted tight e) :
    Wanted loose e where
  reliable := wanted.reliable
  named := wanted.named.trans widens.event.symm
  applicationName text filtered :=
    wanted.applicationName text (widens.applicationName.mem filtered)
  user text filtered := wanted.user text (widens.user.mem filtered)
  database text filtered :=
    wanted.database text (widens.database.mem filtered)
  connectionOrdinal n filtered :=
    wanted.connectionOrdinal n (widens.connectionOrdinal.mem filtered)
  transaction n filtered :=
    wanted.transaction n (widens.transaction.mem filtered)
  queryCycle n filtered :=
    wanted.queryCycle n (widens.queryCycle.mem filtered)
  statement n filtered := wanted.statement n (widens.statement.mem filtered)
  sqlFingerprint text filtered :=
    wanted.sqlFingerprint text (widens.sqlFingerprint.mem filtered)
  statementClass := by
    rcases widens.statementClass with unfiltered | ⟨filters, listed⟩
    · exact Or.inl unfiltered
    · rcases wanted.statementClass with unfiltered | isListed
      · exact absurd unfiltered filters
      · exact Or.inr (listed isListed)
  row n filtered := wanted.row n (widens.row.mem filtered)

end Scenario

namespace Matcher

/-- Between few and enough wanted events lies the awaited one. -/
theorem exists_due
    {s : Scenario}
    (positive : 0 < awaited s)
    {es : List Event}
    {k : Nat}
    (enough : awaited s ≤ occurrences s (es.take k)) :
    ∃ j e,
      j < k ∧ es[j]? = some e ∧ Wanted s e ∧
        occurrences s (es.take j) + 1 = awaited s := by
  induction k with
  | zero =>
      simp [occurrences] at enough
      omega
  | succ k inductionHypothesis =>
      by_cases already : awaited s ≤ occurrences s (es.take k)
      · obtain ⟨j, e, early, found⟩ := inductionHypothesis already
        exact ⟨j, e, Nat.lt_succ_of_lt early, found⟩
      · cases isAt : es[k]? with
        | none =>
            rw [List.take_add_one, isAt] at enough
            simp only [Option.toList_none, List.append_nil] at enough
            exact absurd enough already
        | some e =>
            rw [List.take_add_one, isAt, Option.toList_some,
              Trace.occurrences_concat] at enough
            refine ⟨k, e, Nat.lt_succ_self k, isAt, ?_⟩
            split at enough
            · rename_i wanted
              exact ⟨wanted, by omega⟩
            · omega

end Matcher

/-- No scenario is due more often than it is listed. -/
theorem Trace.audit_subperm (scenarios : List Scenario) (es : List Event) :
    ((faults (audit scenarios [] es)).map Prod.snd).Subperm scenarios := by
  rw [List.subperm_ext_iff]
  intro s _
  exact Nat.le_of_add_right_le (count_audit_le scenarios s [] es)

namespace Relay

/-- Two scenarios for the first query; one of them asks for the connection. -/
def dropTwice : List Scenario :=
  [Trace.dropQuery (some 1), Trace.dropQuery none]

theorem dropTwice_valid :
    ∀ s ∈ dropTwice, s.validate (fun _ => .ok 0) = .ok () := by
  intro s listed
  simp only [dropTwice, List.mem_cons, List.not_mem_nil, or_false] at listed
  rcases listed with rfl | rfl <;> rfl

/-- A connection whose first query is dropped, behind the greeting. -/
def droppedQuery : List Input :=
  [.server (.frame (message 'Z' (ascii "I"))),
    .client (.frame (message 'Q' (ascii "SELECT 1" ++ [0])))]

def droppedRun : Relay :=
  (start 1 default dropTwice).run sampleSha256 (fun _ => .ok 0) droppedQuery

section

variable (sha256 : Bytes → String) (parseDuration : String → Except String Nat)
variable (id : Nat) (startup : StartupMetadata)

/-- The relay of a proxy whose scenarios are valid tells what it observes. -/
theorem tells_start
    {scenarios : List Scenario}
    (valid : ∀ s ∈ scenarios, s.validate parseDuration = .ok ())
    (inputs : List Input) :
    ∃ calls ending,
      Ends id ending
          ((start id startup scenarios).run sha256 parseDuration inputs) ∧
        Tells sha256 (start id startup scenarios) calls ending
          ((start id startup scenarios).run sha256 parseDuration inputs) := by
  refine tells_run sha256 (r := start id startup scenarios) ?_ inputs
  intro m member
  obtain ⟨s, listed, rfl⟩ := List.mem_map.mp member
  exact (Scenario.validate_iff.mp (valid s listed)).punctual

/-- The trace of a relay that tells some calls. -/
theorem Tells.explained
    {scenarios : List Scenario}
    (valid : ∀ s ∈ scenarios, s.validate parseDuration = .ok ())
    {calls : List Call}
    {ending : List Record}
    {r : Relay}
    (ends : Ends id ending r)
    (tells : Tells sha256 (start id startup scenarios) calls ending r) :
    Trace.semantics r.trace =
        (ConnectionState.new id startup).raisedBy sha256 calls ∧
      r.trace =
        .lifecycle id "startup" "" ::
          Trace.audit scenarios [] (Trace.semantics r.trace) ++ ending := by
  have positive : ∀ s ∈ scenarios, 0 < awaited s :=
    fun s listed => (Scenario.validate_iff.mp (valid s listed)).positive
  have silent : Trace.semantics ending = [] := by
    rcases ends with rfl | ⟨rfl, -⟩ <;> rfl
  have expected :=
    Trace.reports_eq_audit positive []
      ((ConnectionState.new id startup).raisedBy sha256 calls)
  rw [allBehind_nil] at expected
  have shape :
      r.trace =
        .lifecycle id "startup" "" ::
          reports (scenarios.map new)
            ((ConnectionState.new id startup).raisedBy sha256 calls) ++
            ending := tells.trace
  have first (records : List Record) :
      Trace.semantics (.lifecycle id "startup" "" :: records) =
        Trace.semantics records := rfl
  have read :
      Trace.semantics r.trace =
        (ConnectionState.new id startup).raisedBy sha256 calls := by
    rw [shape, List.cons_append, first, Trace.semantics_append,
      Trace.semantics_reports, silent, List.append_nil]
  refine ⟨read, ?_⟩
  rw [read, ← expected]
  exact shape

/-- The faults of a relay that tells some calls. -/
theorem Tells.faults
    {scenarios : List Scenario}
    (valid : ∀ s ∈ scenarios, s.validate parseDuration = .ok ())
    {calls : List Call}
    {ending : List Record}
    {r : Relay}
    (ends : Ends id ending r)
    (tells : Tells sha256 (start id startup scenarios) calls ending r) :
    Trace.faults r.trace =
      Trace.faults
        (Trace.audit scenarios [] (Trace.semantics r.trace)) := by
  obtain ⟨-, shape⟩ :=
    tells.explained sha256 parseDuration id startup valid ends
  have silent : Trace.faults ending = [] := by
    rcases ends with rfl | ⟨rfl, -⟩ <;> rfl
  have first (records : List Record) :
      Trace.faults (.lifecycle id "startup" "" :: records) =
        Trace.faults records := rfl
  conv_lhs => rw [shape, List.cons_append, first, Trace.faults_append,
    silent, List.append_nil]

/--
The trace of every run explains itself: the faults in it are those an auditor
computes from the semantic records in front of them, at the same places, and
nothing follows but the record of a cut result, which ends the relay.
-/
theorem trace_explained
    (scenarios : List Scenario)
    (valid : ∀ s ∈ scenarios, s.validate parseDuration = .ok ())
    (inputs : List Input) :
    ∃ ending,
      (ending = [] ∨
        ending = [Record.lifecycle id "result.truncated" ""] ∧
          ((start id startup scenarios).run sha256 parseDuration inputs).exit =
            some .ok) ∧
      ((start id startup scenarios).run sha256 parseDuration inputs).trace =
        .lifecycle id "startup" "" ::
          Trace.audit scenarios []
            (Trace.semantics
              ((start id startup scenarios).run sha256 parseDuration
                inputs).trace) ++ ending := by
  obtain ⟨calls, ending, ends, told⟩ :=
    tells_start sha256 parseDuration id startup valid inputs
  exact ⟨ending, ends,
    (told.explained sha256 parseDuration id startup valid ends).2⟩

theorem trace_explained_droppedQuery :
    ∃ ending,
      (ending = [] ∨
        ending = [Record.lifecycle 1 "result.truncated" ""] ∧
          droppedRun.exit = some .ok) ∧
      droppedRun.trace =
        .lifecycle 1 "startup" "" ::
          Trace.audit dropTwice [] (Trace.semantics droppedRun.trace) ++
            ending :=
  trace_explained sampleSha256 (fun _ => .ok 0) 1 default dropTwice
    dropTwice_valid droppedQuery

/--
The semantic records of every run are numbered: each carries the number of its
connection, and of the records with one name the `k`-th has occurrence `k`.
-/
theorem trace_numbered
    (scenarios : List Scenario)
    (valid : ∀ s ∈ scenarios, s.validate parseDuration = .ok ())
    (inputs : List Input)
    (k : Nat)
    (e : Event)
    (isAt :
      (Trace.semantics
        ((start id startup scenarios).run sha256 parseDuration
          inputs).trace)[k]? = some e) :
    e.connectionId = id ∧
      e.occurrence =
        named e.event
          ((Trace.semantics
            ((start id startup scenarios).run sha256 parseDuration
              inputs).trace).take k) + 1 := by
  obtain ⟨calls, ending, ends, told⟩ :=
    tells_start sha256 parseDuration id startup valid inputs
  have read := (told.explained sha256 parseDuration id startup valid ends).1
  rw [read] at isAt ⊢
  have raised := List.mem_of_getElem? isAt
  refine ⟨ConnectionState.connectionId_of_raisedBy raised, ?_⟩
  have counted :=
    (ConnectionState.raisedBy_counts sha256
      (ConnectionState.new id startup) calls).numbered k e isAt
  simpa [ConnectionState.new] using counted

theorem trace_numbered_droppedQuery :
    (Trace.semantics droppedRun.trace)[2]? = some Trace.firstQuery ∧
      Trace.firstQuery.connectionId = 1 ∧
      Trace.firstQuery.occurrence =
        named "query.received"
          ((Trace.semantics droppedRun.trace).take 2) + 1 := by
  have isThird :
      (Trace.semantics droppedRun.trace)[2]? = some Trace.firstQuery := by
    decide +kernel
  exact ⟨isThird,
    trace_numbered sampleSha256 (fun _ => .ok 0) 1 default dropTwice
      dropTwice_valid droppedQuery 2 Trace.firstQuery isThird⟩

/--
Every run fires each scenario at most once: the scenarios of the fault records
are, as a multiset, among the scenarios of the proxy.
-/
theorem faults_within_scenarios
    (scenarios : List Scenario)
    (valid : ∀ s ∈ scenarios, s.validate parseDuration = .ok ())
    (inputs : List Input) :
    ((Trace.faults
      ((start id startup scenarios).run sha256 parseDuration
        inputs).trace).map Prod.snd).Subperm scenarios := by
  obtain ⟨calls, ending, ends, told⟩ :=
    tells_start sha256 parseDuration id startup valid inputs
  rw [told.faults sha256 parseDuration id startup valid ends]
  exact Trace.audit_subperm scenarios _

theorem faults_within_scenarios_droppedQuery :
    (Trace.faults droppedRun.trace).map Prod.snd = dropTwice ∧
      ((Trace.faults droppedRun.trace).map Prod.snd).Subperm dropTwice :=
  ⟨by decide +kernel,
    faults_within_scenarios sampleSha256 (fun _ => .ok 0) 1 default dropTwice
      dropTwice_valid droppedQuery⟩

/-- A fault of an explained trace is one the auditor expects. -/
theorem Ends.split
    {id : Nat}
    {ending : List Record}
    {r : Relay}
    (ends : Ends id ending r)
    {scenarios : List Scenario}
    {es : List Event}
    {earlier later : List Record}
    {e : Event}
    {s : Scenario}
    (shape :
      earlier ++ .fault e s :: later =
        .lifecycle id "startup" "" :: Trace.audit scenarios [] es ++ ending) :
    ∃ k,
      es[k]? = some e ∧ s ∈ Trace.due scenarios (es.take k) e ∧
        Trace.audit scenarios [] (es.take k) <+: earlier.tail := by
  have silent : Record.fault e s ∉ ending := by
    rcases ends with rfl | ⟨rfl, -⟩ <;> simp [cutRecord]
  rw [List.cons_append] at shape
  obtain ⟨-, isFirst⟩ | ⟨behind, rfl, split⟩ :=
    List.append_eq_cons_iff.mp shape
  · cases isFirst
  rcases List.append_eq_append_iff.mp split with
      ⟨middle, -, tail⟩ | ⟨middle, audited, tail⟩
  · exact absurd (tail ▸ List.mem_append_right _ List.mem_cons_self) silent
  · cases middle with
    | nil =>
        rw [List.nil_append] at tail
        exact absurd (tail ▸ List.mem_cons_self) silent
    | cons record middle =>
        rw [List.cons_append, List.cons.injEq] at tail
        rw [← tail.1] at audited
        exact Trace.audit_split audited

/--
Loosening a scenario never delays it.  Where a relay has a scenario and a looser
one, the fault of the first comes at an event at or behind the fault of the
second, in every run.
-/
theorem looser_fires_first
    (scenarios : List Scenario)
    (valid : ∀ s ∈ scenarios, s.validate parseDuration = .ok ())
    (tight loose : Scenario)
    (widens : tight.Widens loose)
    (listed : loose ∈ scenarios)
    (inputs : List Input)
    (earlier later : List Record)
    (e : Event)
    (fired :
      ((start id startup scenarios).run sha256 parseDuration inputs).trace =
        earlier ++ .fault e tight :: later) :
    .fault e loose ∈
        ((start id startup scenarios).run sha256 parseDuration inputs).trace ∨
      ∃ e', .fault e' loose ∈ earlier := by
  obtain ⟨calls, ending, ends, told⟩ :=
    tells_start sha256 parseDuration id startup valid inputs
  obtain ⟨-, shape⟩ :=
    told.explained sha256 parseDuration id startup valid ends
  generalize
    ((start id startup scenarios).run sha256 parseDuration inputs).trace =
      trace at fired shape ⊢
  generalize Trace.semantics trace = es at shape
  obtain ⟨k, isAt, isDue, before⟩ := ends.split (fired ▸ shape)
  obtain ⟨-, isDue⟩ := List.mem_filter.mp isDue
  simp only [Bool.and_eq_true, decide_eq_true_eq, beq_iff_eq] at isDue
  obtain ⟨wanted, reached⟩ := isDue
  -- The looser scenario has seen at least as many wanted events.
  have more :
      occurrences tight (es.take (k + 1)) ≤
        occurrences loose (es.take (k + 1)) := by
    refine List.countP_mono_left fun x _ isWanted => ?_
    simpa using widens.wanted (by simpa using isWanted)
  have enough : awaited loose ≤ occurrences loose (es.take (k + 1)) := by
    have seen := occurrences_take_succ isAt wanted
    have fewer := widens.occurrence
    omega
  have positive : 0 < awaited loose :=
    (Scenario.validate_iff.mp (valid loose listed)).positive
  obtain ⟨j, e', early, isAt', wanted', reached'⟩ :=
    Matcher.exists_due positive enough
  have looseDue : loose ∈ Trace.due scenarios ([] ++ es.take j) e' :=
    List.mem_filter.mpr ⟨listed, by simp [wanted', reached']⟩
  have expected := Trace.fault_mem_audit isAt' looseDue
  rcases Nat.lt_succ_iff_lt_or_eq.mp early with lt | rfl
  · right
    refine ⟨e', ?_⟩
    have inside := Trace.audit_take_initial scenarios [] (es.take k) (j + 1)
    rw [List.take_take, Nat.min_eq_left (Nat.succ_le_of_lt lt)] at inside
    exact List.mem_of_mem_tail ((inside.trans before).subset expected)
  · left
    rw [isAt] at isAt'
    cases isAt'
    have inside := Trace.audit_take_initial scenarios [] es (j + 1)
    rw [shape]
    exact List.mem_append_left _
      (List.mem_cons_of_mem _ (inside.subset expected))

theorem looser_fires_first_droppedQuery :
    .fault Trace.firstQuery (Trace.dropQuery none) ∈ droppedRun.trace ∨
      ∃ e', .fault e' (Trace.dropQuery none) ∈ droppedRun.trace.take 4 := by
  have widens : (Trace.dropQuery (some 1)).Widens (Trace.dropQuery none) :=
    ⟨rfl, Nat.le_refl _, Or.inl rfl, Or.inl rfl, Or.inl rfl, Or.inl rfl,
      Or.inl rfl, Or.inl rfl, Or.inl rfl, Or.inl rfl, Or.inl rfl, Or.inl rfl⟩
  exact looser_fires_first sampleSha256 (fun _ => .ok 0) 1 default dropTwice
    dropTwice_valid (Trace.dropQuery (some 1)) (Trace.dropQuery none) widens
    (by simp [dropTwice]) droppedQuery (droppedRun.trace.take 4)
    (droppedRun.trace.drop 5) Trace.firstQuery (by decide +kernel)

end

end Relay

end Pgfault
