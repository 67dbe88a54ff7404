import Pgfault.EventOrder
import Pgfault.Replay

namespace Pgfault

open Queue Machine ConnectionState

/-!
# Replay fidelity

A fault is replayed at its recorded coordinates, the first time they occur.  The
coordinates of a client frame are its own.  Replies read the front cycle, and
nothing in it may have moved since the reply before.
-/

/-! ## What a rescheduled scenario wants -/

/-- Two events of one name at the same place. -/
structure Alike (e a : Event) : Prop where
  event : a.event = e.event
  startup : a.startup = e.startup
  transactionEpoch : a.transactionEpoch = e.transactionEpoch
  queryCycle : a.queryCycle = e.queryCycle
  statementIndex : a.statementIndex = e.statementIndex
  sqlFingerprint : a.sqlFingerprint = e.sqlFingerprint
  rowIndex : a.rowIndex = e.rowIndex

/-- The class filter of a scenario. -/
def Scenario.admits (s : Scenario) (c : StatementClass) : Bool :=
  s.when.statementClass.isEmpty || s.when.statementClass.contains c

theorem all_eq {α : Type} [DecidableEq α] {value other : Option α}
    (vanishes : value = none → other = none) :
    value.all (fun text => other == some text) = true ↔ other = value := by
  cases value with
  | none =>
      simpa using vanishes rfl
  | some text =>
      simp

/-- A rescheduled scenario wants the events that are like the recorded one. -/
theorem wants_reschedule
    {s : Scenario}
    {e a : Event}
    (selected : s.selects e = true)
    (before : Before a e)
    (rows :
      a.event = e.event → a.queryCycle = e.queryCycle →
        e.rowIndex = none → a.rowIndex = none) :
    Matcher.wants (Trace.reschedule e s) a = true ↔
      a.semanticReliable = true ∧ Alike e a ∧
        s.admits a.statementClass = true := by
  simp only [Scenario.selects, Bool.and_eq_true] at selected
  obtain ⟨⟨⟨⟨⟨⟨⟨-, named⟩, -⟩, -⟩, -⟩, -⟩, -⟩, -⟩ := selected
  rw [← before.connectionId] at named
  simp only [Matcher.wants, Scenario.selects, Trace.reschedule,
    Bool.and_eq_true, all_eq before.applicationName, Option.all_some,
    beq_iff_eq, named, Scenario.admits, and_true]
  have user :
      e.startup.user.all (fun text => a.startup.user == some text) = true := by
    rw [before.user]
    exact Trace.all_self _
  have database :
      e.startup.database.all (fun text => a.startup.database == some text) =
        true := by
    rw [before.database]
    exact Trace.all_self _
  simp only [user, database, and_true]
  constructor
  · rintro ⟨⟨reliable, event⟩, ⟨⟨⟨⟨⟨application, epoch⟩, cycle⟩, statement⟩,
      fingerprint⟩, class_⟩, row⟩
    refine ⟨reliable, ⟨event, ?_, epoch, cycle, statement, fingerprint,
      (all_eq (rows event cycle)).mp row⟩, class_⟩
    have application : a.startup.applicationName = e.startup.applicationName :=
      application
    cases left : a.startup
    cases right : e.startup
    have user := before.user
    have database := before.database
    simp_all
  · rintro ⟨reliable, alike, class_⟩
    refine ⟨⟨reliable, alike.event⟩, ⟨⟨⟨⟨⟨?_, alike.transactionEpoch⟩,
      alike.queryCycle⟩, alike.statementIndex⟩, alike.sqlFingerprint⟩,
      class_⟩, ?_⟩
    · rw [alike.startup]
    · exact (all_eq (rows alike.event alike.queryCycle)).mpr alike.rowIndex

namespace History

/-- A call other than a client frame finds a state at the recorded place. -/
structure At
    (s : Scenario)
    (e : Event)
    (t : ConnectionState)
    (front : Bool) : Prop where
  reliable : t.reliable = true
  startup : t.startup = e.startup
  transactionEpoch : t.txEpoch = e.transactionEpoch
  queryCycle : (t.coordinates front).queryCycle = e.queryCycle
  statementIndex : (t.coordinates front).statementIndex = e.statementIndex
  sqlFingerprint : (t.coordinates front).sqlFingerprint = e.sqlFingerprint
  statementClass : s.admits (t.coordinates front).statementClass = true

/--
A call repeats the place of a recorded event: a server frame that raises its
name while the front cycle stands where it stood, or a second report of a
forwarded statement.
-/
def Repeats (s : Scenario) (e : Event) (t : ConnectionState) : Call → Prop
  | .frontend _ => False
  | .forwarded => e.event = "query.forwarded" ∧ At s e t true
  | .backend f =>
      e.event ∈ t.backendNames f ∧ At s e t false ∧
        (e.event = "result.row" →
          t.cycles.head?.map (fun c => c.rows + 1) = e.rowIndex)

/-- Some call in front of the event with number `i` repeats its place. -/
def Repeated
    (sha256 : Bytes → String)
    (id : Nat)
    (startup : StartupMetadata)
    (calls : List Call)
    (s : Scenario)
    (e : Event)
    (i : Nat) : Prop :=
  ∃ before call after,
    calls = before ++ call :: after ∧
      (run sha256 id startup (before ++ [call])).raised.length ≤ i ∧
      Repeats s e (run sha256 id startup before).state call

/-- The event a repeating call raises is like the recorded one. -/
theorem Repeats.exists_alike
    (sha256 : Bytes → String)
    {s : Scenario}
    {e : Event}
    {t : ConnectionState}
    {call : Call}
    (repeats : Repeats s e t call)
    (row : e.event ≠ "result.row" → e.rowIndex = none) :
    ∃ a ∈ (called sha256 t call).1,
      a.semanticReliable = true ∧ Alike e a ∧
        s.admits a.statementClass = true := by
  have placed {front : Bool} {a : Event}
      (found : At s e t front)
      (coordinates : a.coordinates = t.coordinates front) :
      a.queryCycle = e.queryCycle ∧ a.statementIndex = e.statementIndex ∧
        a.sqlFingerprint = e.sqlFingerprint ∧
        s.admits a.statementClass = true := by
    have cycle := congrArg Coordinates.queryCycle coordinates
    have index := congrArg Coordinates.statementIndex coordinates
    have digest := congrArg Coordinates.sqlFingerprint coordinates
    have kind := congrArg Coordinates.statementClass coordinates
    refine ⟨cycle.trans found.queryCycle, index.trans found.statementIndex,
      digest.trans found.sqlFingerprint, ?_⟩
    have admitted := found.statementClass
    rw [← kind] at admitted
    exact admitted
  cases call with
  | frontend f =>
      exact repeats.elim
  | forwarded =>
      obtain ⟨named, found⟩ := repeats
      have unlike : e.event ≠ "result.row" := by
        rw [named]
        decide
      obtain ⟨cycle, index, digest, admitted⟩ :=
        placed (a := t.forwarded.1) found rfl
      exact ⟨t.forwarded.1, List.mem_singleton.mpr rfl, found.reliable,
        ⟨named.symm, found.startup, found.transactionEpoch, cycle, index,
          digest, (row unlike).symm⟩, admitted⟩
  | backend f =>
      obtain ⟨named, found, counted⟩ := repeats
      obtain ⟨a, member, isNamed⟩ := exists_backend_event named
      obtain ⟨-, coordinates, epoch, reliable⟩ := mem_backend member
      obtain ⟨-, startup, isRow⟩ := mem_backend_rest member
      obtain ⟨cycle, index, digest, admitted⟩ := placed found coordinates
      refine ⟨a, member, reliable.trans found.reliable,
        ⟨isNamed, startup.trans found.startup,
          epoch.trans found.transactionEpoch, cycle, index, digest, ?_⟩,
        admitted⟩
      rw [isRow, isNamed]
      split
      · rename_i rows
        exact counted rows
      · rename_i other
        exact (row other).symm

/-- An earlier event like the recorded one comes from a repeating call. -/
theorem repeats_of_alike
    {sha256 : Bytes → String}
    {s : Scenario}
    {e a : Event}
    {t : ConnectionState}
    {call : Call}
    (apart : Apart a e)
    (member : a ∈ (called sha256 t call).1)
    (reliable : a.semanticReliable = true)
    (alike : Alike e a)
    (admitted : s.admits a.statementClass = true) :
    Repeats s e t call := by
  have placed {front : Bool}
      (coordinates : a.coordinates = t.coordinates front)
      (epoch : a.transactionEpoch = t.txEpoch)
      (isReliable : a.semanticReliable = t.reliable) :
      At s e t front := by
    have cycle := congrArg Coordinates.queryCycle coordinates
    have index := congrArg Coordinates.statementIndex coordinates
    have digest := congrArg Coordinates.sqlFingerprint coordinates
    have kind := congrArg Coordinates.statementClass coordinates
    refine ⟨isReliable.symm.trans reliable,
      (called_identity member).2.symm.trans alike.startup,
      epoch.symm.trans alike.transactionEpoch,
      cycle.symm.trans alike.queryCycle, index.symm.trans alike.statementIndex,
      digest.symm.trans alike.sqlFingerprint, ?_⟩
    rw [← kind]
    exact admitted
  cases call with
  | frontend f =>
      have client := receive_clientNames sha256 t f _ (mem_frontend member).1
      exact apart client alike.event alike.queryCycle alike.statementIndex
  | forwarded =>
      have isForwarded := List.mem_singleton.mp member
      subst isForwarded
      exact ⟨alike.event.symm, placed rfl rfl rfl⟩
  | backend f =>
      obtain ⟨named, coordinates, epoch, isReliable⟩ := mem_backend member
      obtain ⟨-, -, row⟩ := mem_backend_rest member
      refine ⟨alike.event ▸ named, placed coordinates epoch isReliable, ?_⟩
      intro isRow
      rw [alike.event, if_pos isRow] at row
      exact row.symm.trans alike.rowIndex

theorem row_of_run
    {sha256 : Bytes → String}
    {id : Nat}
    {startup : StartupMetadata}
    {calls : List Call}
    {k : Nat}
    {a : Event}
    (raised : (run sha256 id startup calls).raised[k]? = some a) :
    a.rowIndex ≠ some 0 ∧ (a.event ≠ "result.row" → a.rowIndex = none) ∧
      (a.event = "result.row" → (a.rowIndex = none ↔ a.queryCycle = 0)) := by
  obtain ⟨before, call, -, -, -, found⟩ := exists_call raised
  have member := List.mem_of_getElem? found
  refine ⟨?_, row_of_called (dated_run sha256 id startup before).numbered
    member⟩
  cases call with
  | frontend f =>
      exact row_of_frontend member
  | forwarded =>
      rw [List.mem_singleton.mp member]
      exact row_of_forwarded _
  | backend f =>
      exact row_of_backend member

/-- The earlier events a rescheduled scenario wants are those of repeating calls. -/
theorem wanted_iff_repeated
    {sha256 : Bytes → String}
    {id : Nat}
    {startup : StartupMetadata}
    {calls : List Call}
    {s : Scenario}
    {i : Nat}
    {e : Event}
    (recorded : (run sha256 id startup calls).raised[i]? = some e)
    (selected : s.selects e = true) :
    (∃ k < i, ∃ a, (run sha256 id startup calls).raised[k]? = some a ∧
        Matcher.wants (Trace.reschedule e s) a = true) ↔
      Repeated sha256 id startup calls s e i := by
  have dated := dated_run sha256 id startup calls
  have rowE := (row_of_run recorded).2
  have wanted {k : Nat} {a : Event} (early : k < i)
      (raised : (run sha256 id startup calls).raised[k]? = some a) :=
    wants_reschedule selected
      (related_of_pairwise dated.ordered early raised recorded).1
      (by
        intro event cycle none
        have rowA := (row_of_run raised).2
        by_cases isRow : a.event = "result.row"
        · rw [rowA.2 isRow, cycle, ← rowE.2 (event ▸ isRow)]
          exact none
        · exact rowA.1 isRow)
  constructor
  · rintro ⟨k, early, a, raised, wants⟩
    obtain ⟨reliable, alike, admitted⟩ := (wanted early raised).mp wants
    have apart := (related_of_pairwise dated.ordered early raised recorded).2
    obtain ⟨before, call, after, shape, bound, found⟩ := exists_call raised
    subst shape
    exact ⟨before, call, after, rfl,
      raised_before bound found early recorded alike.event,
      repeats_of_alike apart (List.mem_of_getElem? found) reliable alike
        admitted⟩
  · rintro ⟨before, call, after, shape, bound, repeats⟩
    subst shape
    obtain ⟨a, member, reliable, alike, admitted⟩ :=
      repeats.exists_alike sha256 rowE.1
    obtain ⟨k, within, raised⟩ := raised_of_called after member
    have early := Nat.lt_of_lt_of_le within bound
    exact ⟨k, early, a, raised,
      (wanted early raised).mpr ⟨reliable, alike, admitted⟩⟩

/--
Replay fidelity.  Let a fresh matcher fire at the event with number `i` of a run,
and let the fault be replayed.  The replayed scenario fires at that event and
nowhere else in the same run, exactly if no server frame in front of it raised
the same name with the front cycle at the same place, and no statement was
reported as forwarded twice.
-/
theorem replay_fidelity
    (sha256 : Bytes → String)
    (parseDuration : String → Except String Nat)
    (s : Scenario)
    (valid : s.validate parseDuration = .ok ())
    (id : Nat)
    (startup : StartupMetadata)
    (calls : List Call)
    (i : Nat)
    (e : Event)
    (recorded : (run sha256 id startup calls).raised[i]? = some e)
    (fires :
      ((Matcher.new s).answers (run sha256 id startup calls).raised)[i]? =
        some true) :
    Trace.replay parseDuration [.fault e s] = .ok [Trace.reschedule e s] ∧
      ((∀ j,
          ((Matcher.new (Trace.reschedule e s)).answers
            (run sha256 id startup calls).raised)[j]? = some true ↔ j = i) ↔
        ¬ Repeated sha256 id startup calls s e i) := by
  have wanted : Matcher.wants s e = true := by
    obtain ⟨found, isFound, wants⟩ := Matcher.wants_of_answers fires
    rw [recorded, Option.some.injEq] at isFound
    rw [isFound]
    exact wants
  have parts := wanted
  simp only [Matcher.wants, Bool.and_eq_true, beq_iff_eq] at parts
  obtain ⟨⟨reliable, named⟩, selected⟩ := parts
  have own : Matcher.wants (Trace.reschedule e s) e = true := by
    simp only [Matcher.wants, Bool.and_eq_true, beq_iff_eq]
    exact ⟨⟨reliable, rfl⟩, Trace.reschedule_selects selected⟩
  have first (j : Nat) :=
    Matcher.answers_first (s := Trace.reschedule e s) rfl
      (run sha256 id startup calls).raised j
  refine ⟨?_, ?_⟩
  · have accepted :=
      Trace.reschedule_valid valid named (row_of_run recorded).1
    simp only [Trace.replay, Trace.replayLoop, accepted]
    rfl
  · rw [← wanted_iff_repeated recorded selected]
    constructor
    · rintro exactly ⟨k, early, a, raised, wants⟩
      have refused := ((first i).mp ((exactly i).mpr rfl)).2 k early a raised
      cases wants.symm.trans refused
    · intro fresh j
      have early (k : Nat) (before : k < i) (a : Event)
          (raised : (run sha256 id startup calls).raised[k]? = some a) :
          Matcher.wants (Trace.reschedule e s) a = false := by
        by_contra wants
        exact fresh ⟨k, before, a, raised, by simpa using wants⟩
      rw [first]
      constructor
      · rintro ⟨⟨a, raised, wants⟩, refused⟩
        rcases Nat.lt_trichotomy j i with before | same | behind
        · cases wants.symm.trans (early j before a raised)
        · exact same
        · cases own.symm.trans (refused i behind e recorded)
      · rintro rfl
        exact ⟨⟨e, recorded, own⟩, early⟩

/-- A statement that is described before and after it is bound. -/
def describedTwice : List Call :=
  [.frontend (message 'P' ([0] ++ ascii "SELECT 1" ++ [0, 0, 0])),
    .frontend (message 'D' (ascii "S" ++ [0])),
    .frontend (message 'B' [0, 0, 0, 0, 0, 0, 0, 0]),
    .frontend (message 'D' (ascii "P" ++ [0])),
    .frontend (message 'E' [0, 0, 0, 0, 0]),
    .frontend (message 'S' []),
    .backend (message '1' []),
    .backend (message 't' [0, 0]),
    .backend (message 'T' [0, 0]),
    .backend (message '2' []),
    .backend (message 'T' [0, 0]),
    .backend rowOfOne,
    .backend (message 'C' (ascii "SELECT 1" ++ [0])),
    .backend (message 'Z' (ascii "I"))]

/-- Cut the rows off behind some description of a result. -/
def cutResult (occurrence : Option Nat) : Scenario where
  version := 1
  name := "cut-result"
  when := { event := "result.started", occurrence := occurrence }
  action := { truncateResult := some ⟨0⟩ }

/-- The descriptions differ in nothing but their occurrence. -/
def described (occurrence : Nat) : Event :=
  { connectionId := 1
    semanticReliable := true
    startup := default
    transactionEpoch := 1
    queryCycle := 1
    statementIndex := 1
    statementClass := .select
    sqlFingerprint := sampleSha256 (ascii "SELECT 1")
    event := "result.started"
    occurrence := occurrence
    rowIndex := none }

theorem replay_fidelity_describedTwice :
    Trace.replay (fun _ => .ok 0) [.fault (described 1) (cutResult none)] =
        .ok [Trace.reschedule (described 1) (cutResult none)] ∧
      ¬ Repeated sampleSha256 1 default describedTwice (cutResult none)
        (described 1) 3 := by
  obtain ⟨replayed, faithful⟩ :=
    replay_fidelity sampleSha256 (fun _ => .ok 0) (cutResult none) (by rfl) 1
      default describedTwice 3 (described 1) (by decide +kernel)
      (by decide +kernel)
  refine ⟨replayed, faithful.mp ?_⟩
  have answers :
      (Matcher.new (Trace.reschedule (described 1) (cutResult none))).answers
          (run sampleSha256 1 default describedTwice).raised =
        List.replicate 3 false ++ true :: List.replicate 8 false := by
    decide +kernel
  have within :
      ∀ j < 12,
        (List.replicate 3 false ++ true :: List.replicate 8 false)[j]? =
          some true ↔ j = 3 := by
    decide
  intro j
  rw [answers]
  by_cases bound : j < 12
  · exact within j bound
  · have late := Nat.le_of_not_lt bound
    rw [List.getElem?_eq_none (by simpa using late)]
    simp only [reduceCtorEq, false_iff]
    omega

theorem replay_unfaithful_describedTwice :
    let raised := (run sampleSha256 1 default describedTwice).raised
    raised[4]? = some (described 2) ∧
      ((Matcher.new (cutResult (some 2))).answers raised)[4]? = some true ∧
      ((Matcher.new (Trace.reschedule (described 2)
        (cutResult (some 2)))).answers raised)[3]? = some true := by
  decide +kernel

end History

end Pgfault
