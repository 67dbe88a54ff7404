import Pgfault.PipelineAlignment

namespace Pgfault

open Queue

/-!
# Optimistic and confirmed names

The observer keeps every name map twice: as the client's frames announce it, and
as the server has confirmed it.  The two may differ while a cycle waits, and
coincide whenever none does.  An `ErrorResponse` throws the announced maps away,
with what later cycles have announced.
-/

/-- The statement name a queued change is about, and what it leaves there. -/
def Mutation.prepares : Mutation → Option (Bytes × Option Statement)
  | .parse name statement => some (name, some statement)
  | .close kind name => if kind = 83 then some (name, none) else none
  | .bind _ _ => none

/-- The portal name a queued change is about, and what it leaves there. -/
def Mutation.binds : Mutation → Option (Bytes × Option Statement)
  | .bind name statement => some (name, some statement)
  | .close kind name => if kind = 80 then some (name, none) else none
  | .parse _ _ => none

namespace ConnectionState

/-! ## Maps at rest -/

/-- The announced maps are the confirmed ones. -/
structure AtRest (s : ConnectionState) : Prop where
  prepared : s.prepared = s.confirmedPrepared
  portals : s.portals = s.confirmedPortals

/-- The maps coincide while no cycle waits. -/
def Rests (s : ConnectionState) : Prop :=
  s.cycles = [] → AtRest s

/-- A client frame that works on no cycle changes nothing. -/
theorem receive_fst_of_untouched
    (sha256 : Bytes → String)
    (s : ConnectionState)
    {f : Frame}
    (untouched : touch f = none) :
    (s.receive sha256 f).1 = s := by
  unfold touch at untouched
  unfold receive
  cases tag : f.frontendTag <;> simp only [tag] at untouched ⊢
  case close =>
    unfold readsClose at untouched
    unfold receiveClose
    cases body : f.body with
    | nil =>
        rfl
    | cons kind rest =>
        cases named : cstr rest with
        | none =>
            simp only [named]
        | some name =>
            simp [body, named] at untouched
  all_goals cases untouched

/-- A client frame that works on a cycle leaves one waiting. -/
theorem accept_nonempty_of_touched
    (sha256 : Bytes → String)
    (s : ConnectionState)
    {f : Frame}
    {how : Touch}
    (touched : touch f = some how) :
    (s.accept sha256 f).cycles ≠ [] := by
  intro empty
  have length := (accept_counted sha256 s f).length
  rw [empty, touched, List.length_nil, pushes] at length
  split at length
  · omega
  · rename_i joins
    have none : s.cycles = [] := List.length_eq_zero_iff.mp (by omega)
    simp [startsCycle, none] at joins

theorem Rests.frontend
    {sha256 : Bytes → String}
    {s : ConnectionState}
    (rests : Rests s)
    (f : Frame) :
    Rests (s.accept sha256 f) := by
  intro empty
  cases touched : touch f with
  | some how =>
      exact absurd empty (accept_nonempty_of_touched sha256 s touched)
  | none =>
      unfold accept allocateEpoch at empty ⊢
      rw [receive_fst_of_untouched sha256 s touched] at empty ⊢
      split at empty
      · rename_i allocates
        have none : s.cycles = [] := by
          cases queue : s.cycles with
          | nil =>
              rfl
          | cons c rest =>
              rw [queue] at empty
              cases empty
        simp [allocatesEpoch, none] at allocates
      · rename_i keeps
        rw [if_neg keeps]
        exact rests empty

/-- The queue is drained by a `ReadyForQuery`, or was empty before. -/
theorem Rests.backend
    {s : ConnectionState}
    (rests : Rests s)
    (f : Frame) :
    Rests (s.advance f) := by
  intro empty
  cases ready : readyStatus f with
  | some status =>
      have drained := advance_cycles_of_ready s ready
      rw [empty] at drained
      unfold readyStatus at ready
      split at ready
      · rename_i tag
        simp only [advance, tag, ready, endCycle, ← drained]
        split <;> exact ⟨rfl, rfl⟩
      · cases ready
  | none =>
      have before : s.cycles = [] := by
        rw [advance_cycles_of_open s ready] at empty
        cases queue : s.cycles with
        | nil =>
            rfl
        | cons c rest =>
            rw [queue] at empty
            cases empty
      have atRest := rests before
      unfold readyStatus at ready
      unfold advance
      cases tag : f.backendTag with
      | parameterStatus =>
          simp only
          rw [parameterStatus_eq]
          exact ⟨atRest.prepared, atRest.portals⟩
      | parseComplete =>
          simp only [acknowledge, before, confirm]
          exact ⟨atRest.prepared, atRest.portals⟩
      | bindComplete =>
          simp only [acknowledge, before, confirm]
          exact ⟨atRest.prepared, atRest.portals⟩
      | closeComplete =>
          simp only [acknowledge, before, confirm]
          exact ⟨atRest.prepared, atRest.portals⟩
      | errorResponse =>
          exact ⟨rfl, rfl⟩
      | readyForQuery =>
          rw [if_pos tag] at ready
          simp only [ready]
          exact atRest
      | _ =>
          exact ⟨atRest.prepared, atRest.portals⟩

theorem Rests.recount
    {s : ConnectionState}
    (rests : Rests s)
    (counters : String → Nat) :
    Rests (s.recount counters) :=
  fun empty => ⟨(rests empty).prepared, (rests empty).portals⟩

theorem rests_run
    (sha256 : Bytes → String)
    (id : Nat)
    (startup : StartupMetadata)
    (calls : List Call) :
    Rests ((new id startup).observe sha256 calls) := by
  have keeps
      (s : ConnectionState)
      (call : Call)
      (rests : Rests s) :
      Rests (History.called sha256 s call).2 := by
    obtain ⟨counters, state⟩ := called_state sha256 s call
    rw [state]
    refine Rests.recount ?_ counters
    cases call with
    | frontend f =>
        exact rests.frontend f
    | forwarded =>
        exact rests
    | backend f =>
        exact rests.backend f
  exact Machine.run_invariant keeps (fun _ => ⟨rfl, rfl⟩) calls

/-- A `ReadyForQuery` from idle that drains the queue forgets every portal. -/
theorem portals_of_drained
    {s : ConnectionState}
    {f : Frame}
    (ready : readyStatus f = some .idle)
    (empty : (s.advance f).cycles = []) :
    (s.advance f).portals = NameMap.empty ∧
      (s.advance f).confirmedPortals = NameMap.empty ∧
      (s.advance f).reliable = true := by
  have drained := advance_cycles_of_ready s ready
  rw [empty] at drained
  unfold readyStatus at ready
  split at ready
  · rename_i tag
    simp only [advance, tag, ready, endCycle, ← drained]
    exact ⟨rfl, rfl, rfl⟩
  · cases ready

/--
Maps at rest.  After any calls with any frames, the announced maps are the
confirmed ones whenever no cycle waits; and a `ReadyForQuery` with status idle
that drains the queue leaves no portal and a reliable observer.
-/
theorem maps_coincide_at_rest
    (sha256 : Bytes → String)
    (id : Nat)
    (startup : StartupMetadata)
    (calls : List Call) :
    let s := (new id startup).observe sha256 calls
    (s.cycles = [] →
      s.prepared = s.confirmedPrepared ∧ s.portals = s.confirmedPortals) ∧
      ∀ f,
        readyStatus f = some .idle →
        (s.backend f).2.cycles = [] →
        (s.backend f).2.portals = NameMap.empty ∧
          (s.backend f).2.confirmedPortals = NameMap.empty ∧
          (s.backend f).2.reliable = true := by
  intro s
  refine ⟨?_, ?_⟩
  · intro empty
    have atRest := rests_run sha256 id startup calls empty
    exact ⟨atRest.prepared, atRest.portals⟩
  · intro f ready empty
    rw [backend_state, recount_cycles] at empty
    rw [backend_state, recount_reliable]
    exact portals_of_drained ready empty

/-! ## Errors -/

/-- The changes that wait behind the front cycle, in order. -/
def later (s : ConnectionState) : List Mutation :=
  s.cycles.tail.flatMap Cycle.mutations

/-- A map with some changes applied in order. -/
def changed
    (map : NameMap)
    (changes : List (Bytes × Option Statement)) : NameMap :=
  changes.foldl (fun map change => Function.update map change.1 change.2) map

/-- The last change of every name leaves what a map already has. -/
def Repeats
    (map : NameMap)
    (changes : List (Bytes × Option Statement)) : Prop :=
  ∀ before name value after,
    changes = before ++ (name, value) :: after →
    (∀ change ∈ after, change.1 ≠ name) →
    map name = value

theorem changed_concat
    (map : NameMap)
    (changes : List (Bytes × Option Statement))
    (last : Bytes × Option Statement) :
    changed map (changes ++ [last]) =
      Function.update (changed map changes) last.1 last.2 := by
  unfold changed
  rw [List.foldl_append]
  rfl

/-- A changed map has the last change of a name, or what was there. -/
theorem changed_apply
    (map : NameMap)
    (changes : List (Bytes × Option Statement))
    (name : Bytes) :
    (∃ before value after,
      changes = before ++ (name, value) :: after ∧
        (∀ change ∈ after, change.1 ≠ name) ∧
        changed map changes name = value) ∨
      (∀ change ∈ changes, change.1 ≠ name) ∧
        changed map changes name = map name := by
  induction changes using List.reverseRecOn with
  | nil =>
      exact Or.inr ⟨by simp, rfl⟩
  | append_singleton earlier last inductionHypothesis =>
      rw [changed_concat]
      by_cases same : last.1 = name
      · left
        refine ⟨earlier, last.2, [], ?_, by simp, ?_⟩
        · rw [← same]
        · rw [← same, Function.update_self]
      · rw [Function.update_of_ne (Ne.symm same)]
        rcases inductionHypothesis with
            ⟨before, value, after, shape, latest, isValue⟩ |
              ⟨never, kept⟩
        · left
          refine ⟨before, value, after ++ [last], ?_, ?_, isValue⟩
          · rw [shape]
            simp
          · intro change member
            rcases List.mem_append.mp member with old | new
            · exact latest change old
            · rw [List.mem_singleton.mp new]
              exact same
        · right
          refine ⟨?_, kept⟩
          intro change member
          rcases List.mem_append.mp member with old | new
          · exact never change old
          · rw [List.mem_singleton.mp new]
            exact same

/-- A name has one last change. -/
theorem value_of_last
    {name : Bytes}
    {value other : Option Statement}
    {before after before' after' : List (Bytes × Option Statement)}
    (same :
      before ++ (name, value) :: after = before' ++ (name, other) :: after')
    (latest : ∀ change ∈ after, change.1 ≠ name)
    (latest' : ∀ change ∈ after', change.1 ≠ name) :
    value = other := by
  rcases List.append_eq_append_iff.mp same with
      ⟨between, shape, rest⟩ | ⟨between, shape, rest⟩
  · cases between with
    | nil =>
        simp only [List.nil_append, List.cons.injEq, Prod.mk.injEq] at rest
        exact rest.1.2
    | cons first others =>
        rw [List.cons_append, List.cons.injEq] at rest
        exact absurd rfl (latest (name, other) (by simp [rest.2]))
  · cases between with
    | nil =>
        simp only [List.nil_append, List.cons.injEq, Prod.mk.injEq] at rest
        exact rest.1.2.symm
    | cons first others =>
        rw [List.cons_append, List.cons.injEq] at rest
        exact absurd rfl (latest' (name, value) (by simp [rest.2]))

/-- Changes leave a map as it is exactly if they repeat it. -/
theorem changed_eq_iff
    (map : NameMap)
    (changes : List (Bytes × Option Statement)) :
    map = changed map changes ↔ Repeats map changes := by
  constructor
  · intro same before name value after shape latest
    rcases changed_apply map changes name with
        ⟨before', other, after', shape', latest', isOther⟩ | ⟨never, -⟩
    · rw [← same] at isOther
      rw [isOther]
      exact (value_of_last (shape.symm.trans shape') latest latest').symm
    · exact absurd rfl (never (name, value) (by simp [shape]))
  · intro repeats
    funext name
    rcases changed_apply map changes name with
        ⟨before, value, after, shape, latest, isValue⟩ | ⟨-, kept⟩
    · rw [isValue]
      exact repeats before name value after shape latest
    · exact kept.symm

/-- The statements the client has announced behind the front cycle. -/
def pendingPrepared (s : ConnectionState) : NameMap :=
  changed s.confirmedPrepared (s.later.filterMap Mutation.prepares)

/-- The portals the client has announced behind the front cycle. -/
def pendingPortals (s : ConnectionState) : NameMap :=
  changed s.confirmedPortals (s.later.filterMap Mutation.binds)

/--
Errors.  After any calls, an `ErrorResponse` leaves the announced maps with the
changes of the later cycles if and only if these changes repeat what the server
has already confirmed.
-/
theorem error_keeps_later_changes
    (sha256 : Bytes → String)
    (id : Nat)
    (startup : StartupMetadata)
    (calls : List Call)
    (f : Frame)
    (error : f.backendTag = .errorResponse) :
    let s := (new id startup).observe sha256 calls
    (s.backend f).2.prepared = (s.backend f).2.pendingPrepared ∧
        (s.backend f).2.portals = (s.backend f).2.pendingPortals ↔
      Repeats s.confirmedPrepared (s.later.filterMap Mutation.prepares) ∧
        Repeats s.confirmedPortals (s.later.filterMap Mutation.binds) := by
  intro s
  have failed : s.advance f = s.fail := by simp [advance, error]
  have kept : (s.fail.recount (s.backend f).2.counters).later = s.later := by
    change (modifyFront _ s.cycles).tail.flatMap Cycle.mutations = _
    rw [tail_modifyFront]
    rfl
  rw [backend_state, failed]
  unfold pendingPrepared pendingPortals
  rw [kept, ← changed_eq_iff, ← changed_eq_iff]
  rfl

/-- Two groups with a `Parse` each. -/
def parsedTwice : List Call :=
  [.frontend (message 'P' ([0] ++ ascii "SELEC" ++ [0, 0, 0])),
    .frontend (message 'S' []),
    .frontend (message 'P'
      (ascii "s2" ++ [0] ++ ascii "SELECT 1" ++ [0, 0, 0])),
    .frontend (message 'S' [])]

/-- A confirmed `Parse`, then two groups of which the second repeats it. -/
def parsedAgain : List Call :=
  [.frontend (message 'P'
      (ascii "s2" ++ [0] ++ ascii "SELECT 1" ++ [0, 0, 0])),
    .frontend (message 'S' []), .backend (message '1' []),
    .backend (message 'Z' (ascii "I"))] ++ parsedTwice

theorem error_keeps_later_changes_parsedAgain :
    let s := (new 1 default).observe sampleSha256 parsedAgain
    let t := (s.backend (message 'E' [0])).2
    s.later.filterMap Mutation.prepares ≠ [] ∧
      t.prepared = t.pendingPrepared ∧ t.portals = t.pendingPortals := by
  have prepares :
      ((new 1 default).observe sampleSha256 parsedAgain).later.filterMap
          Mutation.prepares =
        [(ascii "s2",
          some (Statement.new sampleSha256 (ascii "SELECT 1")))] := by
    decide +kernel
  have binds :
      ((new 1 default).observe sampleSha256 parsedAgain).later.filterMap
          Mutation.binds = [] := by
    decide +kernel
  have confirmed :
      ((new 1 default).observe sampleSha256 parsedAgain).confirmedPrepared
          (ascii "s2") =
        some (Statement.new sampleSha256 (ascii "SELECT 1")) := by
    decide +kernel
  refine ⟨by rw [prepares]; simp, ?_⟩
  refine (error_keeps_later_changes sampleSha256 1 default parsedAgain
    (message 'E' [0]) (by decide)).mpr ⟨?_, ?_⟩
  · rw [prepares]
    intro before name value after shape _
    obtain ⟨rfl, isLast⟩ | ⟨-, noChange⟩ :=
      List.append_eq_singleton_iff.mp shape.symm
    · obtain ⟨⟨rfl, rfl⟩, -⟩ := by simpa using isLast
      exact confirmed
    · cases noChange
  · rw [binds]
    intro before name value after shape
    exact absurd shape (by simp)

theorem error_drops_later_parse_parsedTwice :
    let s := (new 1 default).observe sampleSha256 parsedTwice
    let t := (s.backend (message 'E' [0])).2
    t.prepared (ascii "s2") = none ∧
      t.pendingPrepared (ascii "s2") =
        some (Statement.new sampleSha256 (ascii "SELECT 1")) ∧
      ¬ (t.prepared = t.pendingPrepared ∧ t.portals = t.pendingPortals) := by
  have dropped :
      (((new 1 default).observe sampleSha256 parsedTwice).backend
        (message 'E' [0])).2.prepared (ascii "s2") = none := by
    decide +kernel
  have announced :
      (((new 1 default).observe sampleSha256 parsedTwice).backend
        (message 'E' [0])).2.pendingPrepared (ascii "s2") =
        some (Statement.new sampleSha256 (ascii "SELECT 1")) := by
    decide +kernel
  refine ⟨dropped, announced, ?_⟩
  rintro ⟨same, -⟩
  rw [same, announced] at dropped
  cases dropped

end ConnectionState

end Pgfault
