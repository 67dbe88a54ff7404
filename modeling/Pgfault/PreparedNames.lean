import Pgfault.PipelineAlignment

namespace Pgfault

open Queue ConnectionState

/-!
# Prepared statements at both ends

The server keeps a map from names to statement texts and applies the client's
requests in order.  The observer queues the changes of `Parse` and `Close` until
they are acknowledged, but takes the unnamed statement out as soon as it sees a
`Query`.  `NamedSession` is the observer beside such a server; every request
that waits remembers the change the observer queued for it.
-/

/-- Two zero-terminated strings at the front of a body. -/
def twoStrings (body : Bytes) : Option (Bytes × Bytes) :=
  match cstr body with
  | some (first, rest) => (cstr rest).map fun second => (first, second.1)
  | none => none

/-- The kind and the name in the body of a `Close`. -/
def closeTarget : Bytes → Option (UInt8 × Bytes)
  | [] => none
  | kind :: rest => (cstr rest).map fun name => (kind, name.1)

namespace ConnectionState

/-! ## Queued changes -/

/-- The changes the cycles wait for. -/
def changes (s : ConnectionState) : List (List Mutation) :=
  s.cycles.map Cycle.mutations

/-- The change a client frame queues. -/
def queued
    (sha256 : Bytes → String)
    (s : ConnectionState)
    (f : Frame) : Option Mutation :=
  match f.frontendTag with
  | .parse =>
      (twoStrings f.body).map fun t =>
        .parse t.1 (Statement.new sha256 t.2)
  | .bind =>
      (twoStrings f.body).bind fun t => (s.prepared t.2).map (.bind t.1)
  | .close => (closeTarget f.body).map fun t => .close t.1 t.2
  | _ => none

/-- The changes with the cycle a client frame works on at the back. -/
def opening (s : ConnectionState) (extended : Bool) : List (List Mutation) :=
  if s.startsCycle extended then s.changes ++ [[]] else s.changes

theorem changes_cycle
    {s t : ConnectionState}
    (cycles : t.cycles = s.cycles)
    (extended : Bool)
    {update : Cycle → Cycle}
    {added : List Mutation}
    (adds : ∀ c, (update c).mutations = c.mutations ++ added) :
    (t.cycle extended update).changes =
      modifyBack (· ++ added) (s.opening extended) := by
  have opened :
      (t.openCycle extended).cycles.map Cycle.mutations =
        s.opening extended := by
    unfold openCycle opening changes startsCycle
    rw [cycles]
    split
    · rw [List.map_append]
      rfl
    · rw [cycles]
  unfold changes cycle
  rw [← opened]
  exact map_modifyBack_of adds _

theorem changes_openCycle
    {s t : ConnectionState}
    (cycles : t.cycles = s.cycles)
    (extended : Bool) :
    (t.openCycle extended).changes =
      modifyBack (· ++ []) (s.opening extended) := by
  rw [openCycle_eq_cycle]
  exact changes_cycle cycles extended fun c => (List.append_nil _).symm

/-- What a client frame does to the queued changes. -/
theorem changes_accept
    (sha256 : Bytes → String)
    (s : ConnectionState)
    (f : Frame) :
    (s.accept sha256 f).changes =
      (touch f).elim s.changes fun how =>
        modifyBack (· ++ (s.queued sha256 f).toList)
          (s.opening how.extended) := by
  have kept :
      (s.accept sha256 f).changes = (s.receive sha256 f).1.changes := by
    have keeps (c : Cycle) : (markEpoch c).mutations = c.mutations := rfl
    unfold changes accept
    rcases allocateEpoch_cycles (s.receive sha256 f).1 f with same | marked
    · rw [same]
    · rw [marked, map_modifyFront keeps]
  have appends (mutation : Mutation) (c : Cycle) :
      (c.queue mutation).mutations = c.mutations ++ [mutation] := rfl
  rw [kept]
  unfold receive touch queued
  cases f.frontendTag with
  | parse =>
      simp only [receiveParse, twoStrings, Option.elim_some]
      cases first : cstr f.body with
      | none =>
          exact changes_openCycle rfl true
      | some name =>
          cases second : cstr name.2 with
          | none =>
              simp only [second]
              exact changes_openCycle rfl true
          | some sql =>
              simp only [second]
              rw [openCycle_cycle _ (queue_sealed _)]
              exact changes_cycle rfl true (appends _)
  | bind =>
      simp only [receiveBind, twoStrings, Option.elim_some]
      cases first : cstr f.body with
      | none =>
          exact changes_openCycle rfl true
      | some portal =>
          cases second : cstr portal.2 with
          | none =>
              simp only [second]
              exact changes_openCycle rfl true
          | some name =>
              cases known : s.prepared name.1 with
              | none =>
                  simp only [second, known, Option.map_some, Option.bind_some,
                    Option.map_none]
                  exact changes_openCycle rfl true
              | some statement =>
                  simp only [second, known, Option.map_some,
                    Option.bind_some]
                  rw [openCycle_cycle _ (queue_sealed _)]
                  exact changes_cycle rfl true (appends _)
  | close =>
      simp only [receiveClose, readsClose, closeTarget]
      cases f.body with
      | nil =>
          rfl
      | cons kind rest =>
          cases named : cstr rest with
          | none =>
              simp only [named]
              rfl
          | some name =>
              have added :=
                changes_cycle (s := s) rfl true
                  (appends (.close kind name.1))
              simp only [named, Option.isSome_some, if_true,
                Option.elim_some, Option.map_some]
              split
              · exact added
              · split
                · exact added
                · exact added
  | query =>
      exact changes_cycle rfl false fun c => (List.append_nil _).symm
  | execute =>
      exact changes_cycle rfl true fun c => (List.append_nil _).symm
  | sync =>
      exact changes_cycle rfl true fun c => (List.append_nil _).symm
  | _ =>
      rfl

/-- Only a `Query` changes a confirmed map when it is seen. -/
theorem accept_confirmed
    (sha256 : Bytes → String)
    (s : ConnectionState)
    (f : Frame) :
    (s.accept sha256 f).confirmedPrepared =
      if f.frontendTag = .query then s.confirmedPrepared.remove []
      else s.confirmedPrepared := by
  have opened (t : ConnectionState) (extended : Bool)
      (update : Cycle → Cycle) :
      (t.cycle extended update).confirmedPrepared = t.confirmedPrepared := by
    unfold cycle openCycle
    split <;> rfl
  have openedOnly (t : ConnectionState) (extended : Bool) :
      (t.openCycle extended).confirmedPrepared = t.confirmedPrepared := by
    unfold openCycle
    split <;> rfl
  have kept :
      (s.accept sha256 f).confirmedPrepared =
        (s.receive sha256 f).1.confirmedPrepared := by
    unfold accept allocateEpoch
    split <;> rfl
  rw [kept]
  unfold receive
  cases tag : f.frontendTag with
  | parse =>
      simp only [receiveParse, openedOnly, reduceCtorEq, if_false]
      repeat' split
      all_goals simp only [opened]
  | bind =>
      simp only [receiveBind, openedOnly, reduceCtorEq, if_false]
      repeat' split
      all_goals simp only [opened]
  | close =>
      simp only [receiveClose, reduceCtorEq, if_false]
      repeat' split
      all_goals simp only [opened]
  | query =>
      exact opened _ _ _
  | execute =>
      exact opened _ _ _
  | sync =>
      exact opened _ _ _
  | _ =>
      rfl

/-- What a reply does to the changes of the front cycle. -/
def acknowledged (tag : BackendTag) (waiting : List Mutation) : List Mutation :=
  match tag with
  | .parseComplete => waiting.tail
  | .bindComplete => waiting.tail
  | .closeComplete => waiting.tail
  | .errorResponse => []
  | _ => waiting

/-- What a server frame does to the queued changes. -/
theorem changes_advance
    (s : ConnectionState)
    (f : Frame) :
    (s.advance f).changes =
      if (readyStatus f).isSome then s.changes.tail
      else modifyFront (acknowledged f.backendTag) s.changes := by
  unfold changes
  cases ready : readyStatus f with
  | some status =>
      rw [advance_cycles_of_ready s ready, List.map_tail]
      rfl
  | none =>
      have answers (c : Cycle) :
          (answer f c).mutations = acknowledged f.backendTag c.mutations := by
        unfold answer acknowledged
        cases f.backendTag <;>
          simp [completeCommand, suspendPortal, popStatement_eq]
      rw [advance_cycles_of_open s ready, map_modifyFront_of answers]
      rfl

/-- The confirmed statements behind an acknowledged change. -/
def confirmsPrepared
    (map : NameMap)
    (tag : BackendTag)
    (mutation : Option Mutation) : NameMap :=
  match mutation, tag with
  | some (.parse name statement), .parseComplete => map.insert name statement
  | some (.close kind name), .closeComplete =>
      if kind = 83 then map.remove name else map
  | _, _ => map

theorem confirmsPrepared_of_other
    (map : NameMap)
    (mutation : Option Mutation)
    {tag : BackendTag}
    (parse : tag ≠ .parseComplete)
    (close : tag ≠ .closeComplete) :
    confirmsPrepared map tag mutation = map := by
  unfold confirmsPrepared
  split
  · exact absurd rfl parse
  · exact absurd rfl close
  · rfl

/-- The change an acknowledgement is taken for. -/
def firstChange (s : ConnectionState) : Option Mutation :=
  s.changes.head?.bind List.head?

theorem confirm_confirmed
    (s : ConnectionState)
    (tag : BackendTag)
    (mutation : Option Mutation) :
    (s.confirm tag mutation).confirmedPrepared =
      confirmsPrepared s.confirmedPrepared tag mutation := by
  cases mutation with
  | none =>
      rfl
  | some mutation =>
      cases mutation with
      | parse name statement =>
          cases tag <;> rfl
      | bind name statement =>
          cases tag <;> rfl
      | close kind name =>
          cases tag <;> first | rfl | simp only [confirm, confirmsPrepared]
          split <;> rfl

theorem acknowledge_confirmed
    (s : ConnectionState)
    (tag : BackendTag) :
    (s.acknowledge tag).confirmedPrepared =
      confirmsPrepared s.confirmedPrepared tag s.firstChange := by
  have first :
      (s.cycles.head?.bind fun c => c.mutations.head?) = s.firstChange := by
    unfold firstChange changes
    cases s.cycles <;> rfl
  simp only [acknowledge, first, confirm_confirmed]

/-- Only an acknowledgement changes the confirmed statements. -/
theorem advance_confirmed
    (s : ConnectionState)
    (f : Frame) :
    (s.advance f).confirmedPrepared =
      confirmsPrepared s.confirmedPrepared f.backendTag s.firstChange := by
  unfold advance
  cases tag : f.backendTag with
  | parseComplete =>
      exact acknowledge_confirmed s _
  | bindComplete =>
      exact acknowledge_confirmed s _
  | closeComplete =>
      exact acknowledge_confirmed s _
  | parameterStatus =>
      rw [parameterStatus_eq]
      exact (confirmsPrepared_of_other _ _ (by simp) (by simp)).symm
  | readyForQuery =>
      refine Eq.trans ?_
        (confirmsPrepared_of_other _ _ (by simp) (by simp)).symm
      cases statusOf f.body with
      | none =>
          rfl
      | some status =>
          simp only [endCycle]
          split <;> split <;> rfl
  | _ =>
      exact (confirmsPrepared_of_other _ _ (by simp) (by simp)).symm

/-- No other reply changes the confirmed statements. -/
theorem advance_confirmed_of_other
    (s : ConnectionState)
    {f : Frame}
    (parse : f.backendTag ≠ .parseComplete)
    (close : f.backendTag ≠ .closeComplete) :
    (s.advance f).confirmedPrepared = s.confirmedPrepared := by
  rw [advance_confirmed]
  exact confirmsPrepared_of_other _ _ parse close

end ConnectionState

/-! ## A server with prepared statements -/

/-- A client frame the server has not taken up yet. -/
structure Waiting where
  frame : Frame
  /-- The change the observer queued for it. -/
  queued : Option Mutation

/-- The observer and both ends of a session. -/
structure NamedSession where
  state : ConnectionState
  inbox : List Waiting := []
  /-- Behind an error, up to the next `Sync`. -/
  skipping : Bool := false
  /-- The statement texts of the server. -/
  prepared : Bytes → Option Bytes := fun _ => none

namespace NamedSession

/-- The frames the client uses. -/
def sends (tag : FrontendTag) : Bool :=
  tag = .parse ∨ tag = .bind ∨ tag = .execute ∨ tag = .close ∨ tag = .sync ∨
    tag = .query

/-- Whether the server does the next request, and what it is. -/
def does (σ : NamedSession) (request : Frame → Bool) : Bool :=
  !σ.skipping && σ.inbox.head?.any fun x => request x.frame

/--
Which reply may come next.  The server acknowledges a request it can read, binds
a statement it has, and ends a `Query` or a group.  Other replies may come at
any time, so a real server does less than this.
-/
def replies (σ : NamedSession) (f : Frame) : Bool :=
  match f.backendTag with
  | .parseComplete =>
      σ.does fun x =>
        x.frontendTag == .parse && (twoStrings x.body).isSome
  | .bindComplete =>
      σ.does fun x =>
        x.frontendTag == .bind &&
          (twoStrings x.body).any fun t => (σ.prepared t.2).isSome
  | .closeComplete =>
      σ.does fun x => x.frontendTag == .close && (closeTarget x.body).isSome
  | .readyForQuery =>
      (readyStatus f).isSome &&
        σ.inbox.head?.any fun x =>
          x.frame.frontendTag == .sync ||
            x.frame.frontendTag == .query && !σ.skipping
  | _ => true

/-- Which event may come next. -/
def permits (σ : NamedSession) : Move → Prop
  | .client f => sends f.frontendTag = true
  | .forwarded => True
  | .server f => σ.replies f = true
  | .discard =>
      (σ.inbox.head?.any fun x =>
        x.frame.frontendTag == .execute ||
          σ.skipping && x.frame.frontendTag != .sync) = true

/-- The server's part of a reply. -/
def serve (σ : NamedSession) (f : Frame) : NamedSession :=
  match f.backendTag, σ.inbox with
  | .parseComplete, x :: rest =>
      match twoStrings x.frame.body with
      | some (name, sql) =>
          { σ with
            inbox := rest
            prepared := Function.update σ.prepared name (some sql) }
      | none => σ
  | .bindComplete, _ :: rest => { σ with inbox := rest }
  | .closeComplete, x :: rest =>
      match closeTarget x.frame.body with
      | some (kind, name) =>
          { σ with
            inbox := rest
            prepared :=
              if kind = 83 then Function.update σ.prepared name none
              else σ.prepared }
      | none => σ
  | .errorResponse, x :: rest =>
      -- An error in a `Query`, or at the end of a group, skips nothing.
      if σ.skipping || x.frame.terminates then σ
      else { σ with inbox := rest, skipping := true }
  | .readyForQuery, x :: rest =>
      { σ with
        inbox := rest
        skipping := false
        prepared :=
          if x.frame.frontendTag = .query then
            Function.update σ.prepared [] none
          else σ.prepared }
  | _, _ => σ

/-- The session behind one event. -/
def step (sha256 : Bytes → String) (σ : NamedSession) : Move → NamedSession
  | .client f =>
      { σ with
        state := (σ.state.frontend sha256 f).2
        inbox := σ.inbox ++ [⟨f, σ.state.queued sha256 f⟩] }
  | .forwarded => { σ with state := σ.state.forwarded.2 }
  | .server f => { σ.serve f with state := (σ.state.backend f).2 }
  | .discard => { σ with inbox := σ.inbox.tail }

/-- A session once the server has greeted the client. -/
def start
    (sha256 : Bytes → String)
    (id : Nat)
    (startup : StartupMetadata)
    (greeting : List Frame) : NamedSession where
  state := greeted sha256 id startup greeting

/-- The session behind some events. -/
def run
    (sha256 : Bytes → String)
    (σ : NamedSession)
    (moves : List Move) : NamedSession :=
  Machine.run (step sha256) σ moves

/--
An acknowledgement that the observer takes for the right change, in time: the
unnamed statement is not confirmed while a `Query` waits that destroys it, and a
`BindComplete` finds the change that its `Bind` queued, or none at all.
-/
def Timely (σ : NamedSession) : Move → Prop
  | .server f =>
      (f.backendTag = .parseComplete →
        ∀ x ∈ σ.inbox.head?,
          (twoStrings x.frame.body).map Prod.fst = some [] →
          ∀ y ∈ σ.inbox, y.frame.frontendTag ≠ .query) ∧
        (f.backendTag = .bindComplete →
          ∀ x ∈ σ.inbox.head?,
            x.queued.isSome = true ∨ σ.state.firstChange = none)
  | _ => True

/-! ## Waiting requests and queued changes -/

/--
The changes of the cycles are those of the waiting requests, up to the `Query`
or `Sync` that ends each cycle.  `base` is left for the cycle being sent.
-/
inductive Queued (base : List (List Mutation)) :
    List (List Mutation) → List Waiting → Prop where
  | done : Queued base base []
  | ends {x : Waiting} {rest : List Waiting} {later : List (List Mutation)}
      (terminates : x.frame.terminates = true)
      (behind : Queued base later rest) :
      Queued base ([] :: later) (x :: rest)
  | silent {x : Waiting} {rest : List Waiting} {queue : List (List Mutation)}
      (goesOn : x.frame.terminates = false)
      (none : x.queued = none)
      (behind : Queued base queue rest) :
      Queued base queue (x :: rest)
  | change {x : Waiting} {rest : List Waiting} {mutation : Mutation}
      {first : List Mutation} {later : List (List Mutation)}
      (goesOn : x.frame.terminates = false)
      (some : x.queued = some mutation)
      (behind : Queued base (first :: later) rest) :
      Queued base ((mutation :: first) :: later) (x :: rest)

/-- The same while the server skips, whatever the front cycle waits for. -/
inductive Skipped (base : List (List Mutation)) :
    List (List Mutation) → List Waiting → Prop where
  | done {queue : List (List Mutation)} (length : queue.length = base.length) :
      Skipped base queue []
  | ends {x : Waiting} {rest : List Waiting} {first : List Mutation}
      {later : List (List Mutation)}
      (terminates : x.frame.terminates = true)
      (behind : Queued base later rest) :
      Skipped base (first :: later) (x :: rest)
  | ignored {x : Waiting} {rest : List Waiting} {queue : List (List Mutation)}
      (goesOn : x.frame.terminates = false)
      (behind : Skipped base queue rest) :
      Skipped base queue (x :: rest)

/-- The `Query` and `Sync` frames that wait. -/
def owed (inbox : List Waiting) : Nat :=
  (inbox.filter fun x => x.frame.terminates).length

theorem owed_cons (x : Waiting) (rest : List Waiting) :
    owed (x :: rest) = owed rest + if x.frame.terminates then 1 else 0 := by
  unfold owed
  rw [List.filter_cons]
  split <;> rfl

theorem owed_concat (inbox : List Waiting) (y : Waiting) :
    owed (inbox ++ [y]) = owed inbox + if y.frame.terminates then 1 else 0 := by
  unfold owed
  rw [List.filter_append, List.length_append]
  cases terminates : y.frame.terminates <;> simp [terminates]

variable {base queue : List (List Mutation)} {inbox : List Waiting}

theorem Queued.length (queued : Queued base queue inbox) :
    queue.length = owed inbox + base.length := by
  induction queued with
  | done =>
      simp [owed]
  | ends terminates behind inductionHypothesis =>
      rw [owed_cons, if_pos terminates, List.length_cons, inductionHypothesis]
      omega
  | silent goesOn none behind inductionHypothesis =>
      rw [owed_cons, goesOn, inductionHypothesis]
      rfl
  | change goesOn some behind inductionHypothesis =>
      rw [owed_cons, goesOn, List.length_cons, ← List.length_cons,
        inductionHypothesis]
      rfl

theorem Skipped.length (skipped : Skipped base queue inbox) :
    queue.length = owed inbox + base.length := by
  induction skipped with
  | done length =>
      simp [owed, length]
  | ends terminates behind =>
      rw [owed_cons, if_pos terminates, List.length_cons, behind.length]
      omega
  | ignored goesOn behind inductionHypothesis =>
      rw [owed_cons, goesOn, inductionHypothesis]
      rfl

/-- An error leaves the front cycle with any changes. -/
theorem Queued.skip
    (queued : Queued base queue inbox)
    (update : List Mutation → List Mutation) :
    Skipped base (modifyFront update queue) inbox := by
  induction queued generalizing update with
  | done =>
      exact .done (length_modifyFront _ _)
  | ends terminates behind =>
      exact .ends terminates behind
  | silent goesOn none behind inductionHypothesis =>
      exact .ignored goesOn (inductionHypothesis update)
  | @change x rest mutation first later goesOn some behind inductionHypothesis =>
      exact .ignored goesOn
        (inductionHypothesis fun _ => update (mutation :: first))

theorem Skipped.modify
    (skipped : Skipped base queue inbox)
    (update : List Mutation → List Mutation) :
    Skipped base (modifyFront update queue) inbox := by
  induction skipped with
  | done length =>
      exact .done ((length_modifyFront _ _).trans length)
  | ends terminates behind =>
      exact .ends terminates behind
  | ignored goesOn behind inductionHypothesis =>
      exact .ignored goesOn inductionHypothesis

/-- The client begins a cycle. -/
theorem Queued.push
    (queued : Queued [] queue inbox) :
    Queued [[]] (queue ++ [[]]) inbox := by
  induction queued with
  | done =>
      exact .done
  | ends terminates behind inductionHypothesis =>
      exact .ends terminates inductionHypothesis
  | silent goesOn none behind inductionHypothesis =>
      exact .silent goesOn none inductionHypothesis
  | change goesOn some behind inductionHypothesis =>
      exact .change goesOn some inductionHypothesis

theorem Skipped.push
    (skipped : Skipped [] queue inbox) :
    Skipped [[]] (queue ++ [[]]) inbox := by
  induction skipped with
  | done length =>
      exact .done (by simpa using length)
  | ends terminates behind =>
      exact .ends terminates behind.push
  | ignored goesOn behind inductionHypothesis =>
      exact .ignored goesOn inductionHypothesis

/-- The cycle being sent stands at the back. -/
theorem Queued.nonempty
    {first : List Mutation}
    (queued : Queued [first] queue inbox) :
    queue ≠ [] := by
  have length := queued.length
  intro empty
  rw [empty] at length
  simp at length

/-- The client queues changes in the cycle being sent. -/
theorem Queued.grow
    {first : List Mutation}
    (queued : Queued [first] queue inbox)
    (added : List Mutation) :
    Queued [first ++ added] (modifyBack (· ++ added) queue) inbox := by
  induction queued with
  | done =>
      exact .done
  | ends terminates behind inductionHypothesis =>
      rw [modifyBack_cons _ _ behind.nonempty]
      exact .ends terminates inductionHypothesis
  | silent goesOn none behind inductionHypothesis =>
      exact .silent goesOn none inductionHypothesis
  | @change x rest mutation front later goesOn some behind inductionHypothesis =>
      cases later with
      | nil =>
          exact .change goesOn some inductionHypothesis
      | cons second others =>
          exact .change goesOn some inductionHypothesis

theorem Skipped.grow
    {first : List Mutation}
    (skipped : Skipped [first] queue inbox)
    (added : List Mutation) :
    Skipped [first ++ added] (modifyBack (· ++ added) queue) inbox := by
  induction skipped with
  | done length =>
      exact .done (by simpa using length)
  | ends terminates behind =>
      rw [modifyBack_cons _ _ behind.nonempty]
      exact .ends terminates (behind.grow added)
  | ignored goesOn behind inductionHypothesis =>
      exact .ignored goesOn inductionHypothesis

/-- One more request behind the waiting ones. -/
theorem Queued.concat
    {next : List (List Mutation)}
    {y : Waiting}
    (queued : Queued base queue inbox)
    (last : Queued next base [y]) :
    Queued next queue (inbox ++ [y]) := by
  induction queued with
  | done =>
      exact last
  | ends terminates behind inductionHypothesis =>
      exact .ends terminates inductionHypothesis
  | silent goesOn none behind inductionHypothesis =>
      exact .silent goesOn none inductionHypothesis
  | change goesOn some behind inductionHypothesis =>
      exact .change goesOn some inductionHypothesis

theorem Skipped.concat
    {next : List (List Mutation)}
    {y : Waiting}
    (skipped : Skipped base queue inbox)
    (last : Queued next base [y])
    (ended : y.frame.terminates = true → next = []) :
    Skipped next queue (inbox ++ [y]) := by
  induction skipped with
  | @done queue length =>
      have whole := last.length
      rw [owed_cons] at whole
      cases terminates : y.frame.terminates with
      | true =>
          rw [ended terminates, terminates] at whole
          rw [ended terminates]
          obtain ⟨first, isOnly⟩ :=
            List.length_eq_one_iff.mp (length.trans whole)
          rw [isOnly]
          exact .ends terminates .done
      | false =>
          rw [terminates] at whole
          refine .ignored terminates (.done (length.trans ?_))
          simpa [owed] using whole
  | ends terminates behind =>
      exact .ends terminates (behind.concat last)
  | ignored goesOn behind inductionHypothesis =>
      exact .ignored goesOn inductionHypothesis

/-! ## The queue of the observer against the server -/

/-- The cycle the client is sending, before anything is queued in it. -/
def sending (s : ConnectionState) : List (List Mutation) :=
  if s.startsCycle true then [] else [[]]

/-- The changes of the observer against the requests that wait. -/
def Tracks
    (base : List (List Mutation))
    (skipping : Bool)
    (queue : List (List Mutation))
    (inbox : List Waiting) : Prop :=
  if skipping then Skipped base queue inbox else Queued base queue inbox

theorem Tracks.length
    {skipping : Bool}
    (tracks : Tracks base skipping queue inbox) :
    queue.length = owed inbox + base.length := by
  cases skipping with
  | true =>
      exact Skipped.length tracks
  | false =>
      exact Queued.length tracks

theorem Tracks.push
    {skipping : Bool}
    (tracks : Tracks [] skipping queue inbox) :
    Tracks [[]] skipping (queue ++ [[]]) inbox := by
  cases skipping with
  | true =>
      exact Skipped.push tracks
  | false =>
      exact Queued.push tracks

theorem Tracks.grow
    {skipping : Bool}
    {first : List Mutation}
    (tracks : Tracks [first] skipping queue inbox)
    (added : List Mutation) :
    Tracks [first ++ added] skipping (modifyBack (· ++ added) queue) inbox := by
  cases skipping with
  | true =>
      exact Skipped.grow tracks added
  | false =>
      exact Queued.grow tracks added

theorem Tracks.concat
    {skipping : Bool}
    {next : List (List Mutation)}
    {y : Waiting}
    (tracks : Tracks base skipping queue inbox)
    (last : Queued next base [y])
    (ended : y.frame.terminates = true → next = []) :
    Tracks next skipping queue (inbox ++ [y]) := by
  cases skipping with
  | true =>
      exact Skipped.concat tracks last ended
  | false =>
      exact Queued.concat tracks last

/-- A frame that works on no cycle queues nothing. -/
theorem queued_of_untouched
    {f : Frame}
    (untouched : touch f = none)
    (sha256 : Bytes → String)
    (s : ConnectionState) :
    s.queued sha256 f = none := by
  unfold touch at untouched
  unfold queued
  cases tag : f.frontendTag <;> simp only [tag] at untouched ⊢
  case close =>
    unfold readsClose at untouched
    unfold closeTarget
    cases body : f.body with
    | nil =>
        rfl
    | cons kind rest =>
        cases named : cstr rest with
        | none =>
            simp [named]
        | some name =>
            simp [body, named] at untouched
  all_goals cases untouched

theorem queued_of_terminates
    {f : Frame}
    (terminates : f.terminates = true)
    (sha256 : Bytes → String)
    (s : ConnectionState) :
    s.queued sha256 f = none := by
  unfold queued
  rcases terminates_iff.mp terminates with query | sync
  · rw [query]
  · rw [sync]

/-- Only a `Query` works on a simple cycle. -/
theorem query_of_simple
    {f : Frame}
    {how : Touch}
    (touches : touch f = some how)
    (simple : how.extended = false) :
    f.frontendTag = .query := by
  cases terminates : f.terminates with
  | true =>
      rcases terminates_iff.mp terminates with query | sync
      · exact query
      · rw [touch_of_terminates terminates, Option.some.injEq] at touches
        subst touches
        simp [sync] at simple
  | false =>
      rw [touch_of_not_terminates terminates touches] at simple
      cases simple

/-- A client frame in its place keeps the changes in step. -/
theorem Tracks.send
    {s : ConnectionState}
    {skipping : Bool}
    (tracks : Tracks (sending s) skipping s.changes inbox)
    (sha256 : Bytes → String)
    {f : Frame}
    (placed : f.frontendTag = .query → s.startsCycle true = true) :
    Tracks (sending (s.accept sha256 f)) skipping (s.accept sha256 f).changes
      (inbox ++ [⟨f, s.queued sha256 f⟩]) := by
  have starts := (accept_counted sha256 s f).starts
  rw [changes_accept]
  cases touches : touch f with
  | none =>
      have same : sending (s.accept sha256 f) = sending s := by
        unfold sending
        rw [starts, touches]
        rfl
      have goesOn : f.terminates = false := by
        by_contra terminates
        rw [touch_of_terminates (by simpa using terminates)] at touches
        cases touches
      rw [same]
      refine tracks.concat ?_ fun terminates => ?_
      · exact .silent goesOn (queued_of_untouched touches sha256 s) .done
      · rw [goesOn] at terminates
        cases terminates
  | some how =>
      -- The cycle the frame works on stands at the back.
      have opened : Tracks [[]] skipping (s.opening how.extended) inbox := by
        unfold opening
        by_cases fresh : s.startsCycle how.extended = true
        · have closed : s.startsCycle true = true := by
            cases extended : how.extended with
            | true =>
                rw [extended] at fresh
                exact fresh
            | false =>
                exact placed (query_of_simple touches extended)
          rw [sending, if_pos closed] at tracks
          rw [if_pos fresh]
          exact tracks.push
        · have extended : how.extended = true := by
            by_contra simple
            rw [Bool.not_eq_true] at simple
            simp [startsCycle, simple] at fresh
          rw [extended] at fresh ⊢
          rw [sending, if_neg fresh] at tracks
          rw [if_neg fresh]
          exact tracks
      have grown := opened.grow (s.queued sha256 f).toList
      rw [List.nil_append] at grown
      have next :
          sending (s.accept sha256 f) =
            if f.terminates then [] else [[]] := by
        unfold sending
        rw [starts, touches]
        by_cases terminates : f.terminates = true
        · rw [touch_of_terminates terminates, Option.some.injEq] at touches
          subst touches
          rcases terminates_iff.mp terminates with query | sync
          · simp [terminates, query]
          · simp [terminates, sync]
        · rw [Bool.not_eq_true] at terminates
          rw [touch_of_not_terminates terminates touches]
          simp [terminates]
      rw [next]
      refine grown.concat ?_ fun terminates => by rw [if_pos terminates]
      by_cases terminates : f.terminates = true
      · rw [if_pos terminates, queued_of_terminates terminates]
        exact .ends terminates .done
      · rw [if_neg terminates]
        rw [Bool.not_eq_true] at terminates
        cases change : s.queued sha256 f with
        | none =>
            exact .silent terminates rfl .done
        | some mutation =>
            exact .change terminates rfl .done

/-! ## A surplus cycle -/

/-- More cycles than the server will ever end; the queue never drains again. -/
def Lost (s : ConnectionState) (inbox : List Waiting) : Prop :=
  owed inbox + (sending s).length + 1 ≤ s.cycles.length

theorem length_sending (s : ConnectionState) :
    (sending s).length = (!s.startsCycle true).toNat := by
  unfold sending
  cases s.startsCycle true <;> rfl

theorem owed_tail_le (inbox : List Waiting) :
    owed inbox.tail ≤ owed inbox := by
  cases inbox with
  | nil =>
      exact Nat.le_refl _
  | cons x rest =>
      rw [owed_cons, List.tail_cons]
      exact Nat.le_add_right _ _

/-- Every client frame asks for at least as many cycles as answers. -/
theorem Lost.send
    {s : ConnectionState}
    (lost : Lost s inbox)
    (sha256 : Bytes → String)
    (f : Frame)
    (queued : Option Mutation) :
    Lost (s.accept sha256 f) (inbox ++ [⟨f, queued⟩]) := by
  have counted := accept_counted sha256 s f
  have length := counted.length
  unfold Lost at lost ⊢
  rw [length_sending] at lost ⊢
  rw [owed_concat, counted.starts]
  cases touches : touch f with
  | none =>
      have goesOn : f.terminates = false := by
        by_contra terminates
        rw [touch_of_terminates (by simpa using terminates)] at touches
        cases touches
      rw [touches] at length
      simp only [pushes, Nat.add_zero] at length
      simp only [goesOn, Option.elim_none, Bool.false_eq_true, if_false,
        Nat.add_zero]
      omega
  | some how =>
      rw [touches] at length
      cases terminates : f.terminates with
      | true =>
          rw [touch_of_terminates terminates, Option.some.injEq] at touches
          subst touches
          rcases terminates_iff.mp terminates with query | sync
          · simp [pushes, query, startsCycle] at length
            simp [query]
            omega
          · simp only [pushes, sync, decide_true] at length
            simp only [sync]
            cases starts : s.startsCycle true <;>
              simp [starts] at lost length ⊢ <;> omega
      | false =>
          rw [touch_of_not_terminates terminates touches] at length ⊢
          simp only [pushes] at length
          cases starts : s.startsCycle true <;>
            simp [starts] at lost length ⊢ <;> omega

/-- Every `ReadyForQuery` ends a frame that asks for it. -/
theorem Lost.reply
    {s : ConnectionState}
    (lost : Lost s inbox)
    {f : Frame}
    {later : List Waiting}
    (ended :
      (readyStatus f).isSome = true → owed later + 1 ≤ owed inbox)
    (fewer : owed later ≤ owed inbox) :
    Lost (s.advance f) later := by
  unfold Lost at lost ⊢
  cases ready : readyStatus f with
  | none =>
      have same : sending (s.advance f) = sending s := by
        unfold sending
        rw [startsCycle_advance (Or.inl ready)]
      rw [same, advance_cycles_of_open s ready, length_modifyFront]
      omega
  | some status =>
      have drop := ended (by rw [ready]; rfl)
      have remains : s.cycles.tail ≠ [] := by
        intro empty
        have length := congrArg List.length empty
        simp only [List.length_tail, List.length_nil] at length
        omega
      have same : sending (s.advance f) = sending s := by
        unfold sending
        rw [startsCycle_advance (Or.inr remains)]
      rw [same, advance_cycles_of_ready s ready, List.length_tail]
      omega

/-- A `Query` inside a group begins a second cycle, and the first never ends. -/
theorem lost_of_query
    {s : ConnectionState}
    {skipping : Bool}
    (tracks : Tracks (sending s) skipping s.changes inbox)
    (sha256 : Bytes → String)
    {f : Frame}
    (query : f.frontendTag = .query)
    (inside : s.startsCycle true = false)
    (queued : Option Mutation) :
    Lost (s.accept sha256 f) (inbox ++ [⟨f, queued⟩]) := by
  have counted := accept_counted sha256 s f
  have length := counted.length
  have touches : touch f = some ⟨false, false⟩ := by simp [touch, query]
  have terminates : f.terminates = true := terminates_iff.mpr (Or.inl query)
  have whole := tracks.length
  rw [length_sending, inside] at whole
  simp only [changes, List.length_map, Bool.not_false, Bool.toNat_true]
    at whole
  rw [touches] at length
  simp [pushes, startsCycle] at length
  unfold Lost
  rw [length_sending, owed_concat, counted.starts, touches]
  simp [terminates]
  omega

/-! ## The two maps -/

/-- What the observer remembers of a request that waits. -/
structure Noted (sha256 : Bytes → String) (x : Waiting) : Prop where
  parse :
    x.frame.frontendTag = .parse →
      x.queued =
        (twoStrings x.frame.body).map fun t =>
          .parse t.1 (Statement.new sha256 t.2)
  close :
    x.frame.frontendTag = .close →
      x.queued = (closeTarget x.frame.body).map fun t => .close t.1 t.2
  execute : x.frame.frontendTag = .execute → x.queued = none

theorem noted_queued
    (sha256 : Bytes → String)
    (s : ConnectionState)
    (f : Frame) :
    Noted sha256 ⟨f, s.queued sha256 f⟩ := by
  refine ⟨?_, ?_, ?_⟩
  all_goals
    intro tag
    simp only at tag
    simp only [queued, tag]

/-- Whether a `Query` waits. -/
def queries (inbox : List Waiting) : Prop :=
  ∃ x ∈ inbox, x.frame.frontendTag = .query

/--
The confirmed statements against the server's.  The unnamed statement is already
gone while a `Query` waits.
-/
structure Mirrored
    (sha256 : Bytes → String)
    (confirmed : NameMap)
    (prepared : Bytes → Option Bytes)
    (inbox : List Waiting) : Prop where
  named :
    ∀ name ≠ [], confirmed name = (prepared name).map (Statement.new sha256)
  unnamed :
    ¬ queries inbox →
      confirmed [] = (prepared []).map (Statement.new sha256)
  destroyed : queries inbox → confirmed [] = none

section

variable {sha256 : Bytes → String} {confirmed : NameMap}
  {prepared : Bytes → Option Bytes}

/-- Without a change of the maps, only the waiting queries matter. -/
theorem Mirrored.of_queries
    {later : List Waiting}
    (mirrored : Mirrored sha256 confirmed prepared inbox)
    (same : queries later ↔ queries inbox) :
    Mirrored sha256 confirmed prepared later where
  named := mirrored.named
  unnamed none := mirrored.unnamed fun waits => none (same.mpr waits)
  destroyed waits := mirrored.destroyed (same.mp waits)

theorem queries_cons
    {x : Waiting}
    {rest : List Waiting}
    (other : x.frame.frontendTag ≠ .query) :
    queries rest ↔ queries (x :: rest) := by
  unfold queries
  simp [other]

theorem queries_concat
    {y : Waiting}
    (other : y.frame.frontendTag ≠ .query) :
    queries (inbox ++ [y]) ↔ queries inbox := by
  unfold queries
  constructor
  · rintro ⟨x, member, query⟩
    rcases List.mem_append.mp member with old | isLast
    · exact ⟨x, old, query⟩
    · rw [List.mem_singleton.mp isLast] at query
      exact absurd query other
  · rintro ⟨x, member, query⟩
    exact ⟨x, List.mem_append_left _ member, query⟩

/-- Both maps get the statement of a `Parse`. -/
theorem Mirrored.insert
    (mirrored : Mirrored sha256 confirmed prepared inbox)
    (name sql : Bytes)
    (timely : name = [] → ¬ queries inbox) :
    Mirrored sha256 (confirmed.insert name (Statement.new sha256 sql))
      (Function.update prepared name (some sql)) inbox where
  named other nonempty := by
    unfold NameMap.insert
    by_cases same : other = name
    · subst same
      simp
    · simp [Function.update_of_ne same, mirrored.named other nonempty]
  unnamed none := by
    unfold NameMap.insert
    by_cases same : [] = name
    · subst same
      simp
    · simp [Function.update_of_ne same, mirrored.unnamed none]
  destroyed waits := by
    unfold NameMap.insert
    have unlike : [] ≠ name := fun same => timely same.symm waits
    rw [Function.update_of_ne unlike]
    exact mirrored.destroyed waits

/-- Both maps lose the name of a `Close`. -/
theorem Mirrored.remove
    (mirrored : Mirrored sha256 confirmed prepared inbox)
    (name : Bytes) :
    Mirrored sha256 (confirmed.remove name)
      (Function.update prepared name none) inbox where
  named other nonempty := by
    unfold NameMap.remove
    by_cases same : other = name
    · subst same
      simp
    · simp [Function.update_of_ne same, mirrored.named other nonempty]
  unnamed none := by
    unfold NameMap.remove
    by_cases same : [] = name
    · subst same
      simp
    · simp [Function.update_of_ne same, mirrored.unnamed none]
  destroyed waits := by
    unfold NameMap.remove
    by_cases same : [] = name
    · subst same
      simp
    · rw [Function.update_of_ne same]
      exact mirrored.destroyed waits

/-- The observer forgets the unnamed statement when a `Query` is sent. -/
theorem Mirrored.send
    (mirrored : Mirrored sha256 confirmed prepared inbox)
    {y : Waiting}
    (query : y.frame.frontendTag = .query) :
    Mirrored sha256 (confirmed.remove []) prepared (inbox ++ [y]) where
  named name nonempty := by
    unfold NameMap.remove
    rw [Function.update_of_ne nonempty]
    exact mirrored.named name nonempty
  unnamed none := by
    exact absurd ⟨y, by simp, query⟩ none
  destroyed _ := by
    simp [NameMap.remove]

/-- The server forgets it when the `Query` is done. -/
theorem Mirrored.done
    {x : Waiting}
    {rest : List Waiting}
    (mirrored : Mirrored sha256 confirmed prepared (x :: rest))
    (query : x.frame.frontendTag = .query) :
    Mirrored sha256 confirmed (Function.update prepared [] none) rest where
  named name nonempty := by
    rw [Function.update_of_ne nonempty]
    exact mirrored.named name nonempty
  unnamed _ := by
    rw [mirrored.destroyed ⟨x, by simp, query⟩]
    simp
  destroyed _ := mirrored.destroyed ⟨x, by simp, query⟩

end

/-! ## Sessions in step -/

/-- The observer follows the server change by change. -/
structure InStep
    (sha256 : Bytes → String)
    (s : ConnectionState)
    (σ : NamedSession) : Prop where
  tracks : Tracks (sending s) σ.skipping s.changes σ.inbox
  noted : ∀ x ∈ σ.inbox, Noted sha256 x
  mirrored : Mirrored sha256 s.confirmedPrepared σ.prepared σ.inbox

section

variable {sha256 : Bytes → String} {s : ConnectionState} {σ : NamedSession}
  {x : Waiting} {rest : List Waiting}

/-- What the cycles wait for while the server reads on. -/
theorem InStep.queued
    (inStep : InStep sha256 s σ)
    (reading : σ.skipping = false)
    (shape : σ.inbox = x :: rest) :
    Queued (sending s) s.changes (x :: rest) := by
  have tracks := inStep.tracks
  rw [reading, shape] at tracks
  exact tracks

theorem InStep.noted_behind
    (inStep : InStep sha256 s σ)
    (shape : σ.inbox = x :: rest) :
    ∀ y ∈ rest, Noted sha256 y := by
  intro y member
  exact inStep.noted y (by simp [shape, member])

/-- The maps without the first request, which is no `Query`. -/
theorem InStep.mirrored_behind
    (inStep : InStep sha256 s σ)
    (shape : σ.inbox = x :: rest)
    (other : x.frame.frontendTag ≠ .query) :
    Mirrored sha256 s.confirmedPrepared σ.prepared rest := by
  refine inStep.mirrored.of_queries ?_
  rw [shape]
  exact queries_cons other

end

/-- The server is done with a request that ends no group. -/
theorem Queued.take
    {x : Waiting}
    {rest : List Waiting}
    (queued : Queued base queue (x :: rest))
    (goesOn : x.frame.terminates = false) :
    x.queued = none ∧ Queued base queue rest ∨
      ∃ mutation first later,
        x.queued = some mutation ∧ queue = (mutation :: first) :: later ∧
          Queued base (first :: later) rest := by
  cases queued with
  | ends terminates behind =>
      rw [goesOn] at terminates
      cases terminates
  | silent _ none behind =>
      exact Or.inl ⟨none, behind⟩
  | change _ some behind =>
      exact Or.inr ⟨_, _, _, some, rfl, behind⟩

theorem Skipped.take
    {x : Waiting}
    {rest : List Waiting}
    (skipped : Skipped base queue (x :: rest))
    (goesOn : x.frame.terminates = false) :
    Skipped base queue rest := by
  cases skipped with
  | ends terminates behind =>
      rw [goesOn] at terminates
      cases terminates
  | ignored _ behind =>
      exact behind

/-- The server ends the group at the front. -/
theorem Tracks.ready
    {skipping : Bool}
    {x : Waiting}
    {rest : List Waiting}
    (tracks : Tracks base skipping queue (x :: rest))
    (terminates : x.frame.terminates = true) :
    ∃ first, queue = first :: queue.tail ∧ Queued base queue.tail rest := by
  cases skipping with
  | true =>
      cases tracks with
      | ends _ behind =>
          exact ⟨_, rfl, behind⟩
      | ignored goesOn _ =>
          rw [goesOn] at terminates
          cases terminates
  | false =>
      cases tracks with
      | ends _ behind =>
          exact ⟨_, rfl, behind⟩
      | silent goesOn _ _ =>
          rw [goesOn] at terminates
          cases terminates
      | change goesOn _ _ =>
          rw [goesOn] at terminates
          cases terminates

/-- An error drops the changes of the front cycle, in step or not. -/
theorem Tracks.forget
    {s : ConnectionState}
    {skipping : Bool}
    (tracks : Tracks (sending s) skipping queue inbox)
    (ended : ∀ x ∈ inbox.head?, skipping = true ∨ x.frame.terminates = true) :
    Tracks (sending s) skipping (modifyFront (fun _ => []) queue) inbox := by
  cases skipping with
  | true =>
      exact Skipped.modify tracks _
  | false =>
      have queued : Queued (sending s) queue inbox := tracks
      cases queued with
      | done =>
          have same : modifyFront (fun _ => []) (sending s) = sending s := by
            unfold sending
            split <;> rfl
          rw [same]
          exact tracks
      | ends terminates behind =>
          exact tracks
      | @silent x rest queue goesOn none behind =>
          rcases ended x rfl with never | terminates
          · cases never
          · rw [goesOn] at terminates
            cases terminates
      | @change x rest mutation first later goesOn some behind =>
          rcases ended x rfl with never | terminates
          · cases never
          · rw [goesOn] at terminates
            cases terminates

/-- A reply that ends no cycle leaves the cycle being sent alone. -/
theorem sending_advance
    {s : ConnectionState}
    {f : Frame}
    (stays : readyStatus f = none) :
    sending (s.advance f) = sending s := by
  unfold sending
  rw [startsCycle_advance (Or.inl stays)]

theorem firstChange_cons
    {s : ConnectionState}
    {mutation : Mutation}
    {first : List Mutation}
    {later : List (List Mutation)}
    (shape : s.changes = (mutation :: first) :: later) :
    s.firstChange = some mutation := by
  rw [firstChange, shape]
  rfl

/-- Taking a change off a cycle that waits for none does nothing. -/
theorem tail_of_firstChange
    {s : ConnectionState}
    (none : s.firstChange = none) :
    modifyFront List.tail s.changes = s.changes := by
  unfold firstChange at none
  cases shape : s.changes with
  | nil =>
      rfl
  | cons first later =>
      cases first with
      | nil =>
          rfl
      | cons mutation others =>
          rw [shape] at none
          cases none

/-- What an acknowledged request was. -/
theorem does_cases
    {σ : NamedSession}
    {request : Frame → Bool}
    (does : σ.does request = true) :
    σ.skipping = false ∧
      ∃ x rest, σ.inbox = x :: rest ∧ request x.frame = true := by
  simp only [NamedSession.does, Bool.and_eq_true, Bool.not_eq_true'] at does
  obtain ⟨reading, asked⟩ := does
  cases shape : σ.inbox with
  | nil =>
      rw [shape] at asked
      cases asked
  | cons x rest =>
      rw [shape] at asked
      exact ⟨reading, x, rest, rfl, asked⟩

/-- What a `ReadyForQuery` answers. -/
theorem ends_cases
    {σ : NamedSession}
    (asked :
      (σ.inbox.head?.any fun x =>
        x.frame.frontendTag == .sync ||
          x.frame.frontendTag == .query && !σ.skipping) = true) :
    ∃ x rest, σ.inbox = x :: rest ∧ x.frame.terminates = true := by
  cases shape : σ.inbox with
  | nil =>
      rw [shape] at asked
      cases asked
  | cons x rest =>
      rw [shape, List.head?_cons, Option.any_some, Bool.or_eq_true,
        Bool.and_eq_true, beq_iff_eq, beq_iff_eq] at asked
      refine ⟨x, rest, rfl, ?_⟩
      rcases asked with sync | ⟨query, -⟩
      · exact terminates_iff.mpr (Or.inr sync)
      · exact terminates_iff.mpr (Or.inl query)

theorem goesOn_of_tag
    {f : Frame}
    (other : f.frontendTag ≠ .query ∧ f.frontendTag ≠ .sync) :
    f.terminates = false := by
  by_contra terminates
  rcases terminates_iff.mp (by simpa using terminates) with query | sync
  · exact other.1 query
  · exact other.2 sync

/-- `ParseComplete` applies a `Parse` at both ends. -/
theorem InStep.parseComplete
    {sha256 : Bytes → String}
    {s : ConnectionState}
    {σ : NamedSession}
    (inStep : InStep sha256 s σ)
    {f : Frame}
    (tag : f.backendTag = .parseComplete)
    (replies : σ.replies f = true)
    (timely :
      ∀ x ∈ σ.inbox.head?,
        (twoStrings x.frame.body).map Prod.fst = some [] →
        ∀ y ∈ σ.inbox, y.frame.frontendTag ≠ .query) :
    InStep sha256 (s.advance f) (σ.serve f) := by
  simp only [NamedSession.replies, tag] at replies
  obtain ⟨reading, x, rest, shape, asked⟩ := does_cases replies
  simp only [Bool.and_eq_true, beq_iff_eq] at asked
  obtain ⟨parse, readable⟩ := asked
  obtain ⟨⟨name, sql⟩, strings⟩ := Option.isSome_iff_exists.mp readable
  have goesOn : x.frame.terminates = false :=
    goesOn_of_tag (by simp [parse])
  have note := (inStep.noted x (by simp [shape])).parse parse
  rw [strings, Option.map_some] at note
  have stays : readyStatus f = none := by simp [readyStatus, tag]
  have queued := inStep.queued reading shape
  obtain ⟨none, -⟩ | ⟨mutation, first, later, some, changes, behind⟩ :=
    queued.take goesOn
  · rw [note] at none
    cases none
  · rw [note, Option.some.injEq] at some
    subst some
    have served :
        σ.serve f =
          { σ with
            inbox := rest
            prepared := Function.update σ.prepared name (some sql) } := by
      simp [NamedSession.serve, tag, shape, strings]
    have other : x.frame.frontendTag ≠ .query := by simp [parse]
    rw [served]
    refine ⟨?_, ?_, ?_⟩
    · rw [sending_advance stays, changes_advance, stays, tag, changes, reading]
      exact behind
    · exact inStep.noted_behind shape
    · rw [advance_confirmed, tag, firstChange_cons changes]
      refine Mirrored.insert ?_ name sql ?_
      · exact inStep.mirrored_behind shape other
      · rintro rfl ⟨y, member, query⟩
        exact timely x (by simp [shape]) (by simp [strings]) y
          (by simp [shape, member]) query

/-- `BindComplete` takes the change of its `Bind` off, or nothing. -/
theorem InStep.bindComplete
    {sha256 : Bytes → String}
    {s : ConnectionState}
    {σ : NamedSession}
    (inStep : InStep sha256 s σ)
    {f : Frame}
    (tag : f.backendTag = .bindComplete)
    (replies : σ.replies f = true)
    (timely :
      ∀ x ∈ σ.inbox.head?, x.queued.isSome = true ∨ s.firstChange = none) :
    InStep sha256 (s.advance f) (σ.serve f) := by
  simp only [NamedSession.replies, tag] at replies
  obtain ⟨reading, x, rest, shape, asked⟩ := does_cases replies
  simp only [Bool.and_eq_true, beq_iff_eq] at asked
  obtain ⟨bind, -⟩ := asked
  have goesOn : x.frame.terminates = false := goesOn_of_tag (by simp [bind])
  have stays : readyStatus f = none := by simp [readyStatus, tag]
  have queued := inStep.queued reading shape
  have taken :
      Queued (sending s) (modifyFront List.tail s.changes) rest := by
    obtain ⟨none, behind⟩ | ⟨mutation, first, later, -, changes, behind⟩ :=
      queued.take goesOn
    · rcases timely x (by simp [shape]) with some | nothing
      · rw [none] at some
        cases some
      · rw [tail_of_firstChange nothing]
        exact behind
    · rw [changes]
      exact behind
  have served : σ.serve f = { σ with inbox := rest } := by
    simp [NamedSession.serve, tag, shape]
  have other : x.frame.frontendTag ≠ .query := by simp [bind]
  rw [served]
  refine ⟨?_, ?_, ?_⟩
  · rw [sending_advance stays, changes_advance, stays, tag, reading]
    exact taken
  · exact inStep.noted_behind shape
  · rw [advance_confirmed_of_other s (by simp [tag]) (by simp [tag])]
    exact inStep.mirrored_behind shape other

/-- `CloseComplete` applies a `Close` at both ends. -/
theorem InStep.closeComplete
    {sha256 : Bytes → String}
    {s : ConnectionState}
    {σ : NamedSession}
    (inStep : InStep sha256 s σ)
    {f : Frame}
    (tag : f.backendTag = .closeComplete)
    (replies : σ.replies f = true) :
    InStep sha256 (s.advance f) (σ.serve f) := by
  simp only [NamedSession.replies, tag] at replies
  obtain ⟨reading, x, rest, shape, asked⟩ := does_cases replies
  simp only [Bool.and_eq_true, beq_iff_eq] at asked
  obtain ⟨close, readable⟩ := asked
  obtain ⟨⟨kind, name⟩, target⟩ := Option.isSome_iff_exists.mp readable
  have goesOn : x.frame.terminates = false :=
    goesOn_of_tag (by simp [close])
  have note := (inStep.noted x (by simp [shape])).close close
  rw [target, Option.map_some] at note
  have stays : readyStatus f = none := by simp [readyStatus, tag]
  have queued := inStep.queued reading shape
  obtain ⟨none, -⟩ | ⟨mutation, first, later, isSome, changes, behind⟩ :=
    queued.take goesOn
  · rw [note] at none
    cases none
  · rw [note, Option.some.injEq] at isSome
    subst isSome
    have served :
        σ.serve f =
          { σ with
            inbox := rest
            prepared :=
              if kind = 83 then Function.update σ.prepared name none
              else σ.prepared } := by
      simp [NamedSession.serve, tag, shape, target]
    have other : x.frame.frontendTag ≠ .query := by simp [close]
    have mirrored := inStep.mirrored_behind shape other
    rw [served]
    refine ⟨?_, ?_, ?_⟩
    · rw [sending_advance stays, changes_advance, stays, tag, changes, reading]
      exact behind
    · exact inStep.noted_behind shape
    · rw [advance_confirmed, tag, firstChange_cons changes]
      simp only [confirmsPrepared]
      split
      · exact mirrored.remove name
      · exact mirrored

/-- An error makes the server skip, and the observer forget. -/
theorem InStep.errorResponse
    {sha256 : Bytes → String}
    {s : ConnectionState}
    {σ : NamedSession}
    (inStep : InStep sha256 s σ)
    {f : Frame}
    (tag : f.backendTag = .errorResponse) :
    InStep sha256 (s.advance f) (σ.serve f) := by
  have stays : readyStatus f = none := by simp [readyStatus, tag]
  have changes :
      (s.advance f).changes = modifyFront (fun _ => []) s.changes := by
    rw [changes_advance, stays, tag]
    rfl
  have same : (s.advance f).confirmedPrepared = s.confirmedPrepared :=
    advance_confirmed_of_other s (by simp [tag]) (by simp [tag])
  have unchanged
      (served : σ.serve f = σ)
      (ended :
        ∀ x ∈ σ.inbox.head?,
          σ.skipping = true ∨ x.frame.terminates = true) :
      InStep sha256 (s.advance f) (σ.serve f) := by
    rw [served]
    refine ⟨?_, inStep.noted, ?_⟩
    · rw [sending_advance stays, changes]
      exact inStep.tracks.forget ended
    · rw [same]
      exact inStep.mirrored
  cases shape : σ.inbox with
  | nil =>
      refine unchanged (by simp [NamedSession.serve, tag, shape]) ?_
      simp [shape]
  | cons x rest =>
      by_cases ended : (σ.skipping || x.frame.terminates) = true
      · refine unchanged (by simp [NamedSession.serve, tag, shape, ended]) ?_
        intro y isHead
        rw [shape] at isHead
        cases isHead
        simpa using ended
      · have served :
            σ.serve f = { σ with inbox := rest, skipping := true } := by
          simp [NamedSession.serve, tag, shape, ended]
        rw [Bool.not_eq_true, Bool.or_eq_false_iff] at ended
        obtain ⟨reading, goesOn⟩ := ended
        have skipped :
            Skipped (sending s) (modifyFront (fun _ => []) s.changes)
              (x :: rest) := by
          exact (inStep.queued reading shape).skip _
        have other : x.frame.frontendTag ≠ .query := by
          intro query
          rw [terminates_iff.mpr (Or.inl query)] at goesOn
          cases goesOn
        rw [served]
        refine ⟨?_, ?_, ?_⟩
        · rw [sending_advance stays, changes]
          exact skipped.take goesOn
        · exact inStep.noted_behind shape
        · rw [same]
          exact inStep.mirrored_behind shape other

/-- `ReadyForQuery` ends a group at both ends. -/
theorem InStep.readyForQuery
    {sha256 : Bytes → String}
    {s : ConnectionState}
    {σ : NamedSession}
    (inStep : InStep sha256 s σ)
    {f : Frame}
    (tag : f.backendTag = .readyForQuery)
    (replies : σ.replies f = true) :
    InStep sha256 (s.advance f) (σ.serve f) := by
  simp only [NamedSession.replies, tag, Bool.and_eq_true] at replies
  obtain ⟨known, asked⟩ := replies
  obtain ⟨status, ready⟩ := Option.isSome_iff_exists.mp known
  obtain ⟨x, rest, shape, terminates⟩ := ends_cases asked
  have tracks := inStep.tracks
  rw [shape] at tracks
  obtain ⟨first, whole, behind⟩ := tracks.ready terminates
  have served :
      σ.serve f =
        { σ with
          inbox := rest
          skipping := false
          prepared :=
            if x.frame.frontendTag = .query then
              Function.update σ.prepared [] none
            else σ.prepared } := by
    simp only [NamedSession.serve, tag, shape]
  have same : (s.advance f).confirmedPrepared = s.confirmedPrepared :=
    advance_confirmed_of_other s (by simp [tag]) (by simp [tag])
  have sends : sending (s.advance f) = sending s := by
    by_cases last : s.cycles.tail = []
    · -- The queue drains, so the client is between groups.
      have cycles := advance_cycles_of_ready s ready
      have drained : s.changes.tail = [] := by
        rw [changes, ← List.map_tail, last]
        rfl
      have length := behind.length
      rw [drained, List.length_nil, length_sending] at length
      have closed : s.startsCycle true = true := by
        by_contra opened
        rw [Bool.not_eq_true] at opened
        rw [opened] at length
        simp at length
      have after : (s.advance f).startsCycle true = true := by
        simp [startsCycle, cycles, last]
      unfold sending
      rw [closed, after]
    · unfold sending
      rw [startsCycle_advance (Or.inr last)]
  rw [served]
  refine ⟨?_, ?_, ?_⟩
  · rw [sends, changes_advance, ready]
    exact behind
  · exact inStep.noted_behind shape
  · have mirrored := inStep.mirrored
    rw [shape] at mirrored
    rw [same]
    simp only
    split
    · rename_i query
      exact mirrored.done query
    · rename_i other
      exact mirrored.of_queries (queries_cons other)

/-- No other reply does anything to the queue or to the statements. -/
theorem InStep.otherReply
    {sha256 : Bytes → String}
    {s : ConnectionState}
    {σ : NamedSession}
    (inStep : InStep sha256 s σ)
    {f : Frame}
    (stays : readyStatus f = none)
    (keeps : ∀ waiting, acknowledged f.backendTag waiting = waiting)
    (same : (s.advance f).confirmedPrepared = s.confirmedPrepared)
    (served : σ.serve f = σ) :
    InStep sha256 (s.advance f) (σ.serve f) := by
  have front :
      modifyFront (acknowledged f.backendTag) s.changes = s.changes := by
    cases s.changes with
    | nil =>
        rfl
    | cons first later =>
        rw [modifyFront_cons, keeps]
  rw [served]
  refine ⟨?_, inStep.noted, ?_⟩
  · rw [sending_advance stays, changes_advance, stays]
    simp only [Option.isSome_none, Bool.false_eq_true, if_false, front]
    exact inStep.tracks
  · rw [same]
    exact inStep.mirrored

/-- A reply in time keeps a session in step. -/
theorem InStep.reply
    {sha256 : Bytes → String}
    {σ : NamedSession}
    (inStep : InStep sha256 σ.state σ)
    {f : Frame}
    (replies : σ.replies f = true)
    (timely : σ.Timely (.server f)) :
    InStep sha256 (σ.state.advance f) (σ.serve f) := by
  cases tag : f.backendTag with
  | parseComplete =>
      exact inStep.parseComplete tag replies (timely.1 tag)
  | bindComplete =>
      exact inStep.bindComplete tag replies (timely.2 tag)
  | closeComplete =>
      exact inStep.closeComplete tag replies
  | errorResponse =>
      exact inStep.errorResponse tag
  | readyForQuery =>
      exact inStep.readyForQuery tag replies
  | _ =>
      refine inStep.otherReply (by simp [readyStatus, tag]) ?_
        (advance_confirmed_of_other _ (by simp [tag]) (by simp [tag]))
        (by simp [NamedSession.serve, tag])
      intro waiting
      rw [tag]
      rfl

/-- A client frame in its place keeps a session in step. -/
theorem InStep.send
    {sha256 : Bytes → String}
    {σ : NamedSession}
    (inStep : InStep sha256 σ.state σ)
    {f : Frame}
    (placed : f.frontendTag = .query → σ.state.startsCycle true = true) :
    InStep sha256 (σ.state.accept sha256 f)
      { σ with inbox := σ.inbox ++ [⟨f, σ.state.queued sha256 f⟩] } := by
  refine ⟨inStep.tracks.send sha256 placed, ?_, ?_⟩
  · intro x member
    rcases List.mem_append.mp member with old | isLast
    · exact inStep.noted x old
    · rw [List.mem_singleton.mp isLast]
      exact noted_queued sha256 σ.state f
  · rw [accept_confirmed]
    split
    · rename_i query
      exact inStep.mirrored.send query
    · rename_i other
      exact inStep.mirrored.of_queries (queries_concat other)

/--
The server is done with a request it does not acknowledge.  A `Query` that it
skips is never answered.
-/
theorem InStep.discard
    {sha256 : Bytes → String}
    {σ : NamedSession}
    (inStep : InStep sha256 σ.state σ)
    (permitted : σ.permits .discard) :
    Lost σ.state σ.inbox.tail ∨
      InStep sha256 σ.state { σ with inbox := σ.inbox.tail } := by
  have tracks := inStep.tracks
  simp only [NamedSession.permits] at permitted
  cases shape : σ.inbox with
  | nil =>
      rw [shape] at permitted
      cases permitted
  | cons x rest =>
      rw [shape] at permitted tracks
      simp only [List.head?_cons, Option.any_some, Bool.or_eq_true,
        Bool.and_eq_true, beq_iff_eq, bne_iff_ne] at permitted
      rw [List.tail_cons]
      cases terminates : x.frame.terminates with
      | true =>
          left
          have length := tracks.length
          rw [owed_cons, if_pos terminates, changes, List.length_map]
            at length
          unfold Lost
          omega
      | false =>
          right
          have other : x.frame.frontendTag ≠ .query := by
            intro query
            rw [terminates_iff.mpr (Or.inl query)] at terminates
            cases terminates
          refine ⟨?_, ?_, ?_⟩
          · cases skipping : σ.skipping with
            | true =>
                rw [skipping] at tracks
                exact Skipped.take tracks terminates
            | false =>
                rw [skipping] at permitted tracks
                have execute : x.frame.frontendTag = .execute := by
                  rcases permitted with execute | ⟨never, -⟩
                  · exact execute
                  · cases never
                have silent :=
                  (inStep.noted x (by simp [shape])).execute execute
                obtain ⟨-, behind⟩ | ⟨mutation, first, later, some, -, -⟩ :=
                  Queued.take tracks terminates
                · exact behind
                · rw [silent] at some
                  cases some
          · exact inStep.noted_behind shape
          · exact inStep.mirrored_behind shape other

/-- A reply takes at most one request up. -/
theorem serve_inbox
    (σ : NamedSession)
    (f : Frame) :
    (σ.serve f).inbox = σ.inbox ∨ (σ.serve f).inbox = σ.inbox.tail := by
  unfold NamedSession.serve
  repeat' split
  all_goals simp_all

theorem owed_serve
    (σ : NamedSession)
    (f : Frame) :
    owed (σ.serve f).inbox ≤ owed σ.inbox := by
  rcases serve_inbox σ f with same | taken
  · rw [same]
  · rw [taken]
    exact owed_tail_le σ.inbox

/-- A `ReadyForQuery` takes up a request that asks for it. -/
theorem owed_serve_of_ready
    {σ : NamedSession}
    {f : Frame}
    (replies : σ.replies f = true)
    (ready : (readyStatus f).isSome = true) :
    owed (σ.serve f).inbox + 1 ≤ owed σ.inbox := by
  have tag : f.backendTag = .readyForQuery := by
    by_contra other
    simp [readyStatus, other] at ready
  simp only [NamedSession.replies, tag, Bool.and_eq_true] at replies
  obtain ⟨x, rest, shape, terminates⟩ := ends_cases replies.2
  have served : (σ.serve f).inbox = rest := by
    simp only [NamedSession.serve, tag, shape]
  rw [served, shape, owed_cons, if_pos terminates]

/-! ## Whole sessions -/

/-- The session is in step, or its queue has a cycle that never ends. -/
def Sound (sha256 : Bytes → String) (σ : NamedSession) : Prop :=
  Lost σ.state σ.inbox ∨ InStep sha256 σ.state σ

theorem Lost.recount
    {s : ConnectionState}
    {inbox : List Waiting}
    (lost : Lost s inbox)
    (counters : String → Nat) :
    Lost (s.recount counters) inbox :=
  lost

theorem InStep.recount
    {sha256 : Bytes → String}
    {s : ConnectionState}
    {σ : NamedSession}
    (inStep : InStep sha256 s σ)
    (counters : String → Nat) :
    InStep sha256 (s.recount counters)
      { σ with state := s.recount counters } :=
  ⟨inStep.tracks, inStep.noted, inStep.mirrored⟩

theorem Sound.client
    {sha256 : Bytes → String}
    {σ : NamedSession}
    (sound : Sound sha256 σ)
    (f : Frame) :
    Sound sha256 (σ.step sha256 (.client f)) := by
  unfold Sound
  simp only [NamedSession.step]
  rw [frontend_state]
  rcases sound with lost | inStep
  · exact Or.inl ((lost.send sha256 f _).recount _)
  · by_cases inside :
        f.frontendTag = .query ∧ σ.state.startsCycle true = false
    · have lost :=
        lost_of_query inStep.tracks sha256 inside.1 inside.2
          (σ.state.queued sha256 f)
      exact Or.inl (lost.recount _)
    · right
      have sent := inStep.send (f := f) fun query => by
        by_contra opened
        exact inside ⟨query, by simpa using opened⟩
      exact sent.recount _

theorem Sound.server
    {sha256 : Bytes → String}
    {σ : NamedSession}
    (sound : Sound sha256 σ)
    {f : Frame}
    (replies : σ.replies f = true)
    (timely : σ.Timely (.server f)) :
    Sound sha256 (σ.step sha256 (.server f)) := by
  unfold Sound
  simp only [NamedSession.step]
  rw [backend_state]
  rcases sound with lost | inStep
  · have replied :=
      lost.reply (owed_serve_of_ready replies) (owed_serve σ f)
    exact Or.inl (replied.recount _)
  · exact Or.inr ((inStep.reply replies timely).recount _)

theorem Sound.discard
    {sha256 : Bytes → String}
    {σ : NamedSession}
    (sound : Sound sha256 σ)
    (permitted : σ.permits .discard) :
    Sound sha256 (σ.step sha256 .discard) := by
  rcases sound with lost | inStep
  · left
    have fewer := owed_tail_le σ.inbox
    unfold Lost at lost ⊢
    simp only [NamedSession.step]
    omega
  · exact inStep.discard permitted

/-- A permitted event in time keeps a session sound. -/
theorem Sound.step
    {sha256 : Bytes → String}
    {σ : NamedSession}
    (sound : Sound sha256 σ)
    {move : Move}
    (permitted : σ.permits move)
    (timely : σ.Timely move) :
    Sound sha256 (σ.step sha256 move) := by
  cases move with
  | client f =>
      exact sound.client f
  | forwarded =>
      rcases sound with lost | inStep
      · exact Or.inl (lost.recount _)
      · exact Or.inr (inStep.recount _)
  | server f =>
      exact sound.server permitted timely
  | discard =>
      exact sound.discard permitted

/-- The greeting of the server confirms no statement. -/
theorem greeted_confirmed
    (sha256 : Bytes → String)
    (id : Nat)
    (startup : StartupMetadata)
    (greeting : List Frame) :
    (greeted sha256 id startup greeting).confirmedPrepared =
      NameMap.empty := by
  have silent
      (frames : List Frame)
      (s : ConnectionState)
      (empty : s.cycles = [] ∧ s.nextCycle = 0) :
      (s.observe sha256 (frames.map Call.backend)).confirmedPrepared =
        s.confirmedPrepared := by
    induction frames generalizing s with
    | nil =>
        rfl
    | cons f rest inductionHypothesis =>
        have none : s.firstChange = none := by
          simp [firstChange, changes, empty.1]
        have same :
            (s.backend f).2.confirmedPrepared = s.confirmedPrepared := by
          rw [backend_state]
          change (s.advance f).confirmedPrepared = s.confirmedPrepared
          rw [advance_confirmed, none]
          rfl
        rw [← same]
        exact inductionHypothesis _ (empty_of_backend empty f)
  exact silent greeting _ ⟨rfl, rfl⟩

theorem sound_start
    (sha256 : Bytes → String)
    (id : Nat)
    (startup : StartupMetadata)
    (greeting : List Frame) :
    Sound sha256 (start sha256 id startup greeting) := by
  have empty := (greeted_empty sha256 id startup greeting).1
  have confirmed := greeted_confirmed sha256 id startup greeting
  right
  refine ⟨?_, ?_, ?_⟩
  · simp only [start, sending, startsCycle, changes, empty]
    exact Queued.done
  · intro x member
    cases member
  · simp only [start, confirmed]
    refine ⟨fun _ _ => rfl, fun _ => rfl, ?_⟩
    intro waits
    obtain ⟨x, member, -⟩ := waits
    cases member

/--
In a state with an empty queue that the observer trusts, the confirmed
statements are those of the server.
-/
def Mirrors (sha256 : Bytes → String) (σ : NamedSession) : Prop :=
  σ.state.cycles = [] →
    σ.state.reliable = true →
    ∀ name,
      σ.state.confirmedPrepared name =
        (σ.prepared name).map (Statement.new sha256)

theorem Sound.mirrors
    {sha256 : Bytes → String}
    {σ : NamedSession}
    (sound : Sound sha256 σ) :
    Mirrors sha256 σ := by
  intro empty _ name
  rcases sound with lost | inStep
  · rw [Lost, empty, List.length_nil] at lost
    omega
  · have length := inStep.tracks.length
    rw [changes, empty, List.map_nil, List.length_nil] at length
    -- Nothing that waits ends a cycle, so no `Query` waits.
    have idle : ¬ queries σ.inbox := by
      rintro ⟨x, member, query⟩
      have counted : 0 < owed σ.inbox := by
        refine List.length_pos_of_mem (List.mem_filter.mpr ⟨member, ?_⟩)
        exact terminates_iff.mpr (Or.inl query)
      omega
    by_cases unnamed : name = []
    · rw [unnamed]
      exact inStep.mirrored.unnamed idle
    · exact inStep.mirrored.named name unnamed

/--
Prepared statements.  In every session in which the replies come in time, the
confirmed statements are those of the server in every state with an empty queue
that the observer trusts.
-/
theorem confirmed_mirrors
    (sha256 : Bytes → String)
    (id : Nat)
    (startup : StartupMetadata)
    (greeting : List Frame)
    (moves : List Move)
    (permitted :
      Machine.Permitted permits (step sha256)
        (start sha256 id startup greeting) moves)
    (timely :
      Machine.Permitted Timely (step sha256)
        (start sha256 id startup greeting) moves) :
    Mirrors sha256 (run sha256 (start sha256 id startup greeting) moves) := by
  have keeps
      (σ : NamedSession)
      (move : Move)
      (sound : Sound sha256 σ)
      (given : σ.permits move ∧ σ.Timely move) :
      Sound sha256 (σ.step sha256 move) :=
    sound.step given.1 given.2
  have sound :=
    Machine.permitted_invariant keeps
      (sound_start sha256 id startup greeting) (permitted.and timely)
  exact sound.mirrors

instance decidablePermits (σ : NamedSession) :
    (move : Move) → Decidable (σ.permits move)
  | .client f => inferInstanceAs (Decidable (sends f.frontendTag = true))
  | .forwarded => inferInstanceAs (Decidable True)
  | .server f => inferInstanceAs (Decidable (σ.replies f = true))
  | .discard =>
      inferInstanceAs
        (Decidable ((σ.inbox.head?.any fun x =>
          x.frame.frontendTag == .execute ||
            σ.skipping && x.frame.frontendTag != .sync) = true))

instance decidableTimely (σ : NamedSession) :
    (move : Move) → Decidable (σ.Timely move)
  | .client _ => inferInstanceAs (Decidable True)
  | .forwarded => inferInstanceAs (Decidable True)
  | .discard => inferInstanceAs (Decidable True)
  | .server f =>
      inferInstanceAs
        (Decidable ((f.backendTag = .parseComplete →
          ∀ x ∈ σ.inbox.head?,
            (twoStrings x.frame.body).map Prod.fst = some [] →
            ∀ y ∈ σ.inbox, y.frame.frontendTag ≠ .query) ∧
          (f.backendTag = .bindComplete →
            ∀ x ∈ σ.inbox.head?,
              x.queued.isSome = true ∨ σ.state.firstChange = none)))

/-- A named statement prepared and executed, with a query pipelined behind. -/
def namedThenQuery : List Move :=
  [.client (message 'P' (ascii "s1" ++ [0] ++ ascii "SELECT 1" ++ [0, 0, 0])),
    .client (message 'B' ([0] ++ ascii "s1" ++ [0, 0, 0, 0, 0, 0, 0])),
    .client (message 'E' [0, 0, 0, 0, 0]),
    .client (message 'S' []),
    .client (message 'Q' (ascii "SELECT 2" ++ [0])),
    .server (message '1' []),
    .server (message '2' []),
    .server (message 'C' (ascii "SELECT 1" ++ [0])),
    .discard,
    .server (message 'Z' (ascii "I")),
    .server (message 'C' (ascii "SELECT 1" ++ [0])),
    .server (message 'Z' (ascii "I"))]

theorem confirmed_mirrors_namedThenQuery :
    let σ :=
      run sampleSha256
        (start sampleSha256 1 default [message 'Z' (ascii "I")])
        namedThenQuery
    σ.state.cycles = [] ∧ σ.state.reliable = true ∧
      σ.prepared (ascii "s1") = some (ascii "SELECT 1") ∧
      Mirrors sampleSha256 σ :=
  ⟨by decide +kernel, by decide +kernel, by decide +kernel,
    confirmed_mirrors sampleSha256 1 default [message 'Z' (ascii "I")]
      namedThenQuery (by decide +kernel) (by decide +kernel)⟩

/-- The unnamed statement prepared, with a query pipelined behind. -/
def unnamedThenQuery : List Move :=
  [.client (message 'P' ([0] ++ ascii "SELECT 1" ++ [0, 0, 0])),
    .client (message 'S' []),
    .client (message 'Q' (ascii "SELECT 2" ++ [0])),
    .server (message '1' []),
    .server (message 'Z' (ascii "I")),
    .server (message 'C' (ascii "SELECT 1" ++ [0])),
    .server (message 'Z' (ascii "I"))]

theorem confirmed_stale_unnamedThenQuery :
    let σ := start sampleSha256 1 default [message 'Z' (ascii "I")]
    Machine.Permitted permits (step sampleSha256) σ unnamedThenQuery ∧
      ¬ Mirrors sampleSha256 (run sampleSha256 σ unnamedThenQuery) := by
  refine ⟨by decide +kernel, ?_⟩
  intro mirrors
  have unnamed := mirrors (by decide +kernel) (by decide +kernel) []
  revert unnamed
  decide +kernel

end NamedSession

end Pgfault
