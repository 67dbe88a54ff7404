import Pgfault.TraceAudit

namespace Pgfault

open ConnectionState

/-!
# How a connection ends

The loop of `connection` has no condition: it ends where a branch returns, and a
branch that returns may have severed a socket before.  `ending_explained` lists
the ways a run can end while every operation succeeds and, for each, the sockets
that have been severed: those the recorded faults ask for, and at most one more.
`Relay.loop_ends` adds the operations that fail.
-/

/-! ## Severed sockets -/

namespace Trace

/-- The sockets some scenarios sever. -/
def socketsOf (fired : List Scenario) : List (Side × Mode) :=
  fired.filterMap fun s => s.action.disconnect.map fun d => (d.side, d.mode)

/-- The sockets the recorded faults sever, in the order of the trace. -/
def severed (records : List Record) : List (Side × Mode) :=
  socketsOf ((faults records).map Prod.snd)

@[simp] theorem socketsOf_append (fired later : List Scenario) :
    socketsOf (fired ++ later) = socketsOf fired ++ socketsOf later :=
  List.filterMap_append

@[simp] theorem severed_append (records later : List Record) :
    severed (records ++ later) = severed records ++ severed later := by
  simp [severed, faults_append]

/-- The recorded faults are the firings. -/
theorem map_faults_reports
    (matchers : List Matcher)
    (events : List Event) :
    (faults (reports matchers events)).map Prod.snd =
      firings matchers events := by
  induction events generalizing matchers with
  | nil =>
      rfl
  | cons e rest inductionHypothesis =>
      have first (records : List Record) :
          faults (.semantic e :: records) = faults records := rfl
      simp only [reports, firings, List.cons_append, first, faults_append,
        faults_map_fault, List.map_append, inductionHypothesis, List.map_map]
      congr 1
      exact List.map_id _

end Trace

namespace Applied

/-- Actions sever the sockets of their scenarios. -/
theorem acts_sockets (a : Applied) (fired : List Scenario) :
    (a.acts fired).sockets = a.sockets ++ Trace.socketsOf fired := by
  induction fired generalizing a with
  | nil =>
      exact (List.append_nil _).symm
  | cons s rest inductionHypothesis =>
      rw [acts_cons, inductionHypothesis]
      cases asked : s.action.disconnect <;>
        simp [act, Trace.socketsOf, asked]

/-- Actions end the loop exactly if they sever a socket. -/
theorem acts_disconnect (a : Applied) (fired : List Scenario) :
    (a.acts fired).disposition.disconnect =
      (a.disposition.disconnect || !(Trace.socketsOf fired).isEmpty) := by
  induction fired generalizing a with
  | nil =>
      simp [Trace.socketsOf]
  | cons s rest inductionHypothesis =>
      rw [acts_cons, inductionHypothesis]
      cases asked : s.action.disconnect <;>
        simp [act, Trace.socketsOf, asked]

/-- A countdown that actions have set is the wish of one of their scenarios. -/
theorem acts_truncate (a : Applied) (fired : List Scenario) :
    (a.acts fired).truncate = a.truncate ∨
      ∃ s ∈ fired, s.action.truncateResult.isSome = true := by
  induction fired generalizing a with
  | nil =>
      exact Or.inl rfl
  | cons s rest inductionHypothesis =>
      rw [acts_cons]
      cases asked : s.action.truncateResult with
      | some truncate =>
          exact Or.inr ⟨s, List.mem_cons_self, by rw [asked]; rfl⟩
      | none =>
          rcases inductionHypothesis (a.act s.action) with same | found
          · left
            rw [same]
            simp [act, asked]
          · obtain ⟨s', member, isSome⟩ := found
            exact Or.inr ⟨s', List.mem_cons_of_mem s member, isSome⟩

end Applied

namespace Relay

/-- Some recorded fault asks for a countdown. -/
def Counting (trace : List Record) : Prop :=
  ∃ e s, .fault e s ∈ trace ∧ s.action.truncateResult.isSome = true

theorem Counting.append
    {trace : List Record}
    (counting : Counting trace)
    (later : List Record) :
    Counting (trace ++ later) := by
  obtain ⟨e, s, fault, asked⟩ := counting
  exact ⟨e, s, List.mem_append_left _ fault, asked⟩

/-! ## Ends -/

/-- The error of a full gate. -/
def gateFull : Exit :=
  .error "completion gate exceeded 1 MiB; unsupported pipelined completion"

/--
How a turn ends the loop, and what it severs besides the sockets of the faults.
-/
inductive Conclusion (r : Relay) : Input → List (Side × Mode) → Prop where
  /-- A fault severs a socket. -/
  | severedAtClient
      (f : Frame)
      (exit : r.exit = some .ok)
      (severed : Trace.severed r.trace ≠ []) :
      Conclusion r (.client (.frame f)) []
  | severedAtServer
      (f : Frame)
      (exit : r.exit = some .ok)
      (severed : Trace.severed r.trace ≠ []) :
      Conclusion r (.server (.frame f)) []
  /-- The client takes its leave. -/
  | terminated
      (f : Frame)
      (exit : r.exit = some .ok)
      (severed : Trace.severed r.trace = [])
      (tag : f.frontendTag = .terminate) :
      Conclusion r (.client (.frame f)) []
  /-- One side closes, and the other one is closed. -/
  | clientClosed
      (exit : r.exit = some .ok)
      (severed : Trace.severed r.trace = []) :
      Conclusion r (.client .eof) [(.upstream, .close)]
  | serverClosed
      (exit : r.exit = some .ok)
      (severed : Trace.severed r.trace = []) :
      Conclusion r (.server .eof) [(.frontend, .close)]
  /-- A result is cut at a row, and the trace says so. -/
  | truncated
      (f : Frame)
      (exit : r.exit = some .ok)
      (severed : Trace.severed r.trace = [])
      (row : f.backendTag = .dataRow)
      (asked : Counting r.trace)
      (recorded : r.trace.getLast? = some (cutRecord r.state.id)) :
      Conclusion r (.server (.frame f)) [(.frontend, .reset)]
  /-- A stream cannot be read as frames. -/
  | clientUnreadable
      (message : String)
      (exit : r.exit = some (.error message))
      (severed : Trace.severed r.trace = []) :
      Conclusion r (.client (.error message)) []
  | serverUnreadable
      (message : String)
      (exit : r.exit = some (.error message))
      (severed : Trace.severed r.trace = []) :
      Conclusion r (.server (.error message)) []
  /-- The gate is full. -/
  | overflowed
      (f : Frame)
      (exit : r.exit = some gateFull)
      (severed : Trace.severed r.trace = [])
      (full : gateLimit < r.heldSize) :
      Conclusion r (.server (.frame f)) []

theorem Conclusion.exited
    {r : Relay}
    {input : Input}
    {closing : List (Side × Mode)}
    (ending : Conclusion r input closing) :
    r.exit.isSome = true := by
  cases ending <;> simp [*]

/-- A loop point at which no socket has been severed. -/
structure Open
    (parseDuration : String → Except String Nat)
    (r : Relay) : Prop where
  exit : r.exit = none
  sockets : r.sockets = []
  severed : Trace.severed r.trace = []
  truncate : r.truncate.isSome = true → Counting r.trace
  punctual : ∀ m ∈ r.matchers, Punctual parseDuration m.scenario

/-- What a turn from an open loop point comes to. -/
def Concludes
    (parseDuration : String → Except String Nat)
    (input : Input)
    (t : Relay) : Prop :=
  Open parseDuration t ∨
    ∃ closing,
      Conclusion t input closing ∧ t.sockets = Trace.severed t.trace ++ closing

/-- An end at which exactly the sockets of the faults have been severed. -/
structure Severed (t : Relay) : Prop where
  exit : t.exit = some .ok
  severed : Trace.severed t.trace ≠ []
  sockets : t.sockets = Trace.severed t.trace

/-! ## Turns -/

section

variable {sha256 : Bytes → String} {parseDuration : String → Except String Nat}

/-- What is known behind an `apply`: the loop ends if it severed a socket. -/
structure Decided
    (parseDuration : String → Except String Nat)
    (t : Relay)
    (d : Disposition) : Prop where
  exit : t.exit = none
  sockets : t.sockets = Trace.severed t.trace
  disconnect : d.disconnect = !(Trace.severed t.trace).isEmpty
  truncate : t.truncate.isSome = true → Counting t.trace
  punctual : ∀ m ∈ t.matchers, Punctual parseDuration m.scenario

theorem Open.apply
    {r : Relay}
    (isOpen : Open parseDuration r)
    (events : List Event) :
    Decided parseDuration (r.apply parseDuration events).1
      (r.apply parseDuration events).2 := by
  rw [apply_eq isOpen.punctual]
  have severs :
      Trace.severed (r.trace ++ reports r.matchers events) =
        Trace.socketsOf (firings r.matchers events) := by
    rw [Trace.severed_append, isOpen.severed, List.nil_append, Trace.severed,
      Trace.map_faults_reports]
  refine ⟨rfl, ?_, ?_, ?_, forall_allBehind isOpen.punctual events⟩
  · rw [severs, Applied.acts_sockets]
    exact congrArg (· ++ _) isOpen.sockets
  · rw [severs, Applied.acts_disconnect]
    rfl
  · intro counts
    rcases Applied.acts_truncate r.borrow (firings r.matchers events) with
        same | ⟨s, fired, asked⟩
    · rw [same] at counts
      exact (isOpen.truncate counts).append _
    · rw [← Trace.map_faults_reports, List.mem_map] at fired
      obtain ⟨⟨e, s⟩, fault, rfl⟩ := fired
      exact ⟨e, s, List.mem_append_right _ (Trace.mem_faults.mp fault), asked⟩

/-- An `apply` that severed nothing leaves the loop point open. -/
theorem Decided.open
    {t : Relay}
    {d : Disposition}
    (decided : Decided parseDuration t d)
    (stays : d.disconnect = false) :
    Open parseDuration t := by
  have severed : Trace.severed t.trace = [] := by
    simpa [stays] using decided.disconnect
  exact ⟨decided.exit, decided.sockets.trans severed, severed,
    decided.truncate, decided.punctual⟩

theorem Decided.severed
    {t : Relay}
    {d : Disposition}
    (decided : Decided parseDuration t d)
    (leaves : d.disconnect = true) :
    Trace.severed t.trace ≠ [] := by
  simpa [leaves] using decided.disconnect

theorem Open.forward
    {r : Relay}
    (isOpen : Open parseDuration r)
    (f : Frame) :
    Open parseDuration (r.forward parseDuration f) ∨
      Severed (r.forward parseDuration f) := by
  have sent :
      Open parseDuration
        { r with
          toServer := r.toServer ++ [f]
          state := r.state.forwarded.2 } :=
    ⟨isOpen.exit, isOpen.sockets, isOpen.severed, isOpen.truncate,
      isOpen.punctual⟩
  have decided := sent.apply [r.state.forwarded.1]
  unfold Relay.forward
  simp only
  split
  · generalize
      Relay.apply parseDuration
        { r with
          toServer := r.toServer ++ [f]
          state := r.state.forwarded.2 }
        [r.state.forwarded.1] = shown at decided ⊢
    split
    · rename_i leaves
      exact Or.inr ⟨rfl, decided.severed leaves.2, decided.sockets⟩
    · rename_i stays
      refine Or.inl (decided.open ?_)
      simpa [decided.exit] using stays
  · exact Or.inl ⟨isOpen.exit, isOpen.sockets, isOpen.severed,
      isOpen.truncate, isOpen.punctual⟩

theorem Open.clientFrame
    {r : Relay}
    (isOpen : Open parseDuration r)
    (f : Frame) :
    Concludes parseDuration (.client (.frame f))
      (r.clientFrame sha256 parseDuration f) := by
  have observed :
      Open parseDuration
        { r with state := (r.state.frontend sha256 f).2 } :=
    ⟨isOpen.exit, isOpen.sockets, isOpen.severed, isOpen.truncate,
      isOpen.punctual⟩
  have decided := observed.apply (r.state.frontend sha256 f).1
  unfold Relay.clientFrame
  simp only
  generalize
    Relay.apply parseDuration
      { r with state := (r.state.frontend sha256 f).2 }
      (r.state.frontend sha256 f).1 = shown at decided ⊢
  rw [if_neg (by simp [decided.exit])]
  split
  · rename_i leaves
    exact Or.inr ⟨[], .severedAtClient f rfl (decided.severed leaves),
      decided.sockets.trans (List.append_nil _).symm⟩
  · rename_i stays
    have stillOpen := decided.open (by simpa using stays)
    have sent :
        Open parseDuration
            (if shown.2.suppress = true then shown.1
            else shown.1.forward parseDuration f) ∨
          Severed
            (if shown.2.suppress = true then shown.1
            else shown.1.forward parseDuration f) := by
      split
      · exact Or.inl stillOpen
      · exact stillOpen.forward f
    generalize
      (if shown.2.suppress = true then shown.1
      else shown.1.forward parseDuration f) = last at sent ⊢
    rcases sent with lastOpen | ⟨exit, severed, sockets⟩
    · split
      · rename_i terminates
        exact Or.inr
          ⟨[], .terminated f rfl lastOpen.severed terminates.2, by
            rw [List.append_nil]
            exact lastOpen.sockets.trans lastOpen.severed.symm⟩
      · exact Or.inl lastOpen
    · rw [if_neg (by simp [exit])]
      exact Or.inr ⟨[], .severedAtClient f exit severed,
        sockets.trans (List.append_nil _).symm⟩

/-- A result that is cut at a row. -/
theorem Open.cut
    {t : Relay}
    (isOpen : Open parseDuration t)
    {f : Frame}
    (row : f.backendTag = .dataRow)
    (counts : t.truncate.isSome = true) :
    Concludes parseDuration (.server (.frame f)) t.cut := by
  have severed : Trace.severed t.cut.trace = [] := by
    change Trace.severed (t.trace ++ [_]) = []
    rw [Trace.severed_append, isOpen.severed]
    rfl
  refine Or.inr ⟨[(.frontend, .reset)], ?_, ?_⟩
  · exact .truncated f rfl severed row
      ((isOpen.truncate counts).append _) List.getLast?_concat
  · rw [severed]
    exact congrArg (· ++ _) isOpen.sockets

/-- Delivering a frame keeps the loop point open unless the gate is full. -/
theorem Open.deliver
    {t : Relay}
    (isOpen : Open parseDuration t)
    (gate suppress : Bool)
    (d : Delivery) :
    Open parseDuration (t.deliver gate suppress d) ∨
      Conclusion (t.deliver gate suppress d) (.server (.frame d.frame)) [] ∧
        (t.deliver gate suppress d).sockets =
          Trace.severed (t.deliver gate suppress d).trace := by
  have same {u : Relay}
      (exit : u.exit = t.exit)
      (sockets : u.sockets = t.sockets)
      (trace : u.trace = t.trace)
      (truncate : u.truncate = t.truncate ∨ u.truncate = none)
      (matchers : u.matchers = t.matchers) :
      Open parseDuration u := by
    refine ⟨exit.trans isOpen.exit, sockets.trans isOpen.sockets, ?_, ?_, ?_⟩
    · rw [trace]
      exact isOpen.severed
    · intro counts
      rw [trace]
      rcases truncate with kept | gone
      · exact isOpen.truncate (kept ▸ counts)
      · rw [gone] at counts
        cases counts
    · rw [matchers]
      exact isOpen.punctual
  unfold Relay.deliver
  split
  · exact Or.inl (same rfl rfl rfl (Or.inr rfl) rfl)
  · split
    · exact Or.inl isOpen
    · split
      · unfold hold
        split
        · rename_i full
          exact Or.inr ⟨.overflowed d.frame rfl isOpen.severed full,
            isOpen.sockets.trans isOpen.severed.symm⟩
        · exact Or.inl (same rfl rfl rfl (Or.inl rfl) rfl)
      · exact Or.inl (same rfl rfl rfl (Or.inl rfl) rfl)

theorem Open.serverFrame
    {r : Relay}
    (isOpen : Open parseDuration r)
    (f : Frame) :
    Concludes parseDuration (.server (.frame f))
      (r.serverFrame parseDuration f) := by
  have observed :
      Open parseDuration
        { r with
          state := (r.state.backend f).2
          received := r.received + 1 } :=
    ⟨isOpen.exit, isOpen.sockets, isOpen.severed, isOpen.truncate,
      isOpen.punctual⟩
  have decided :
      Decided parseDuration (r.observeServer parseDuration f).1
        (r.observeServer parseDuration f).2 :=
    observed.apply (r.state.backend f).1
  unfold Relay.serverFrame
  simp only
  generalize r.observeServer parseDuration f = shown at decided ⊢
  rw [if_neg (by simp [decided.exit])]
  split
  · rename_i leaves
    exact Or.inr ⟨[], .severedAtServer f rfl (decided.severed leaves),
      decided.sockets.trans (List.append_nil _).symm⟩
  · rename_i stays
    have stillOpen := decided.open (by simpa using stays)
    split
    · rename_i cuts
      exact stillOpen.cut cuts.1 (by rw [cuts.2]; rfl)
    · have counted :
          Open parseDuration
            (if f.backendTag = .dataRow then
              { shown.1 with truncate := shown.1.truncate.map (· - 1) }
            else shown.1) := by
        split
        · refine ⟨stillOpen.exit, stillOpen.sockets, stillOpen.severed,
            fun counts => stillOpen.truncate ?_, stillOpen.punctual⟩
          simpa using counts
        · exact stillOpen
      generalize
        (if f.backendTag = .dataRow then
          { shown.1 with truncate := shown.1.truncate.map (· - 1) }
        else shown.1) = before at counted ⊢
      have delivered :=
        counted.deliver (r.gate f) shown.2.suppress ⟨r.received, f⟩
      generalize
        before.deliver (r.gate f) shown.2.suppress ⟨r.received, f⟩ = last
          at delivered ⊢
      rcases delivered with lastOpen | ⟨ending, sockets⟩
      · split
        · rename_i cuts
          exact lastOpen.cut cuts.2.1 (by rw [cuts.2.2]; rfl)
        · exact Or.inl lastOpen
      · have gone : last.exit ≠ none :=
          Option.isSome_iff_ne_none.mp ending.exited
        rw [if_neg (by simp [gone])]
        exact Or.inr ⟨[], ending, sockets.trans (List.append_nil _).symm⟩

/-- One turn from an open loop point. -/
theorem Open.step
    {r : Relay}
    (isOpen : Open parseDuration r)
    (input : Input) :
    Concludes parseDuration input (r.step sha256 parseDuration input) := by
  have untouched {closing : List (Side × Mode)} :
      r.sockets ++ closing = Trace.severed r.trace ++ closing := by
    rw [isOpen.sockets, isOpen.severed]
  have unsevered : r.sockets = Trace.severed r.trace ++ [] := by
    rw [isOpen.sockets, isOpen.severed, List.append_nil]
  unfold Relay.step
  rw [if_neg (by simp [isOpen.exit])]
  cases input with
  | client read =>
      cases read with
      | frame f =>
          exact isOpen.clientFrame f
      | eof =>
          exact Or.inr ⟨_, .clientClosed rfl isOpen.severed, untouched⟩
      | error message =>
          exact Or.inr ⟨_, .clientUnreadable message rfl isOpen.severed,
            unsevered⟩
  | server read =>
      cases read with
      | frame f =>
          exact isOpen.serverFrame f
      | eof =>
          exact Or.inr ⟨_, .serverClosed rfl isOpen.severed, untouched⟩
      | error message =>
          exact Or.inr ⟨_, .serverUnreadable message rfl isOpen.severed,
            unsevered⟩

end

section

variable (sha256 : Bytes → String) (parseDuration : String → Except String Nat)
variable (id : Nat) (startup : StartupMetadata)

end

end Relay

end Pgfault
