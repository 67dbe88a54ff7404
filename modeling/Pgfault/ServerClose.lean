import Pgfault.Transparency

namespace Pgfault

open Queue ConnectionState

/-!
# The server closes

The server may close its side at any frame boundary.  The relay then closes the
client and returns, with whatever the gate holds.  So a close is lossless exactly
when the gate has not closed since the last `ReadyForQuery`.
-/

namespace Relay

section

variable (sha256 : Bytes → String) (parseDuration : String → Except String Nat)

/--
The gate has closed in a run from `r₀`: some server frame completed a command an
unfired scenario waits for, and no `ReadyForQuery` has come since.
-/
def GateClosed (r₀ : Relay) (inputs : List Input) : Prop :=
  ∃ before f after,
    inputs = before ++ .server (.frame f) :: after ∧
      (r₀.run sha256 parseDuration before).gate f = true ∧
      ∀ g ∈ serverFrames after, g.backendTag ≠ .readyForQuery

/-- No input, no closed gate. -/
theorem not_gateClosed_nil (r₀ : Relay) :
    ¬ GateClosed sha256 parseDuration r₀ [] := by
  rintro ⟨before, f, after, shape, -⟩
  simp at shape

/-- The gate closes at the last input, or it was closed and stays so. -/
theorem gateClosed_concat
    {r₀ : Relay}
    {inputs : List Input}
    {input : Input} :
    GateClosed sha256 parseDuration r₀ (inputs ++ [input]) ↔
      (∃ f,
        input = .server (.frame f) ∧
          (r₀.run sha256 parseDuration inputs).gate f = true) ∨
        GateClosed sha256 parseDuration r₀ inputs ∧
          ∀ g ∈ serverFrames [input], g.backendTag ≠ .readyForQuery := by
  constructor
  · rintro ⟨before, f, after, shape, gated, noReady⟩
    rcases eq_nil_or_concat after with rfl | ⟨earlier, last, rfl⟩
    · left
      have sameEnd := List.append_inj' shape rfl
      obtain ⟨rfl, isLast⟩ := sameEnd
      exact ⟨f, by simpa using isLast, gated⟩
    · right
      rw [← List.cons_append, ← List.append_assoc] at shape
      obtain ⟨rfl, isLast⟩ := List.append_inj' shape rfl
      have sameLast : input = last := by simpa using isLast
      subst sameLast
      rw [serverFrames_append] at noReady
      exact ⟨⟨before, f, earlier, rfl, gated,
          fun g member => noReady g (List.mem_append_left _ member)⟩,
        fun g member => noReady g (List.mem_append_right _ member)⟩
  · rintro (⟨f, rfl, gated⟩ | ⟨⟨before, f, after, rfl, gated, noReady⟩, last⟩)
    · exact ⟨inputs, f, [], rfl, gated, fun g member => by cases member⟩
    · refine ⟨before, f, after ++ [input], by simp, gated, ?_⟩
      intro g member
      rw [serverFrames_append] at member
      rcases List.mem_append.mp member with inAfter | isLast
      · exact noReady g inAfter
      · exact last g isLast

/-- Only a completed command closes the gate. -/
theorem tag_of_gate
    {r : Relay}
    {f : Frame}
    (gated : r.gate f = true) :
    f.backendTag = .commandComplete := by
  unfold gate at gated
  by_contra other
  have none : r.state.completionBoundary f = none :=
    if_neg fun both => other both.1
  simp [none] at gated

/-- A frame that finds the gate open and does not close it is not held. -/
theorem held_of_ungated
    {r : Relay}
    {f : Frame}
    (ungated : r.gate f = false)
    (nothingHeld : r.held = []) :
    (r.serverFrame parseDuration f).held = [] := by
  have applied := observeServer_applies parseDuration r f
  have observed : (r.observeServer parseDuration f).1.held = [] :=
    applied.held.trans nothingHeld
  have delivered
      {t : Relay}
      (held : t.held = [])
      (suppress : Bool)
      (d : Delivery) :
      (t.deliver false suppress d).held = [] := by
    unfold deliver
    by_cases ready : d.frame.backendTag = .readyForQuery
    · rw [if_pos ready]
      rfl
    · rw [if_neg ready]
      by_cases suppressed : suppress = true
      · rw [if_pos suppressed]
        exact held
      · rw [if_neg suppressed, if_neg (by simp [held])]
        exact held
  unfold serverFrame
  simp only [ungated]
  generalize counts :
      (if f.backendTag = .dataRow then
        { (r.observeServer parseDuration f).1 with
          truncate :=
            (r.observeServer parseDuration f).1.truncate.map (· - 1) }
      else (r.observeServer parseDuration f).1) = counted
  have unheld : counted.held = [] := by
    rw [← counts]
    split <;> exact observed
  have behind :=
    delivered unheld (r.observeServer parseDuration f).2.suppress
      ⟨r.received, f⟩
  generalize
    counted.deliver false (r.observeServer parseDuration f).2.suppress
      ⟨r.received, f⟩ = t at behind ⊢
  repeat' split
  · exact observed
  · exact observed
  · exact observed
  · exact behind
  · exact behind

/-- Before the first fault, frames are held exactly behind a closed gate. -/
def HeldBehindGate (r₀ : Relay) (inputs : List Input) (r : Relay) : Prop :=
  r.exit = none →
  (∀ m ∈ r.matchers, m.fired = false) →
  (r.held ≠ [] ↔ GateClosed sha256 parseDuration r₀ inputs)

/-- One turn keeps the held frames behind the gate. -/
theorem HeldBehindGate.step
    {r₀ : Relay}
    {inputs : List Input}
    (before :
      HeldBehindGate sha256 parseDuration r₀ inputs
        (r₀.run sha256 parseDuration inputs))
    (input : Input) :
    HeldBehindGate sha256 parseDuration r₀ (inputs ++ [input])
      ((r₀.run sha256 parseDuration inputs).step sha256 parseDuration
        input) := by
  intro running unfired
  generalize reached : r₀.run sha256 parseDuration inputs = r at *
  have wasRunning : r.exit = none :=
    running_of_run sha256 parseDuration [input] running
  rw [gateClosed_concat, reached]
  rcases step_running sha256 parseDuration running with
      ⟨f, rfl, turn⟩ | ⟨f, rfl, turn⟩
  · have same := before wasRunning (unfired_of_follows turn.follows unfired)
    rw [turn.held, same]
    simp [serverFrames]
  · have same := before wasRunning (unfired_of_follows turn.follows unfired)
    have unsuppressed :
        (r.observeServer parseDuration f).2.suppress = false := by
      rw [turn.silent unfired]
    have oneFrame : serverFrames [Input.server (.frame f)] = [f] := rfl
    cases turn.delivers with
    | left exited _ _ =>
        rw [running] at exited
        cases exited
    | settled ready held _ _ =>
        rw [held, oneFrame]
        constructor
        · intro nonempty
          exact absurd rfl nonempty
        · rintro (⟨g, isFrame, gated⟩ | ⟨-, noReady⟩)
          · cases isFrame
            rw [tag_of_gate gated] at ready
            cases ready
          · exact absurd ready (noReady f (by simp))
    | dropped _ suppressed _ _ _ =>
        rw [unsuppressed] at suppressed
        cases suppressed
    | held other _ held _ _ _ =>
        have closes : r.gate f = true ∨ r.held ≠ [] := by
          by_contra neither
          push Not at neither
          have none :=
            held_of_ungated parseDuration
              (by simpa using neither.1) neither.2
          have isTurn :
              r.step sha256 parseDuration (.server (.frame f)) =
                r.serverFrame parseDuration f := by
            unfold Relay.step
            rw [wasRunning]
            rfl
          rw [isTurn, none] at held
          simp at held
        have nonempty : r.held ++ [⟨r.received, f⟩] ≠ [] := by simp
        rw [held, oneFrame, ← same]
        refine iff_of_true nonempty ?_
        rcases closes with gated | wasClosed
        · exact Or.inl ⟨f, rfl, gated⟩
        · exact Or.inr ⟨wasClosed, by simpa using other⟩
    | written other _ ungated wasEmpty held _ _ =>
        rw [held, ← same, wasEmpty]
        refine iff_of_false (by simp) ?_
        rintro (⟨g, isFrame, gated⟩ | ⟨wasClosed, -⟩)
        · cases isFrame
          rw [ungated] at gated
          cases gated
        · exact wasClosed rfl

/-- Along every run frames are held exactly behind a closed gate. -/
theorem heldBehindGate_run
    (id : Nat)
    (startup : StartupMetadata)
    (scenarios : List Scenario)
    (inputs : List Input) :
    HeldBehindGate sha256 parseDuration (start id startup scenarios) inputs
      ((start id startup scenarios).run sha256 parseDuration inputs) := by
  refine Machine.run_induction
    (motive := HeldBehindGate sha256 parseDuration
      (start id startup scenarios)) ?_ ?_ inputs
  · intro _ _
    exact iff_of_false (fun nonempty => nonempty rfl)
      (not_gateClosed_nil sha256 parseDuration _)
  · intro before input held
    exact HeldBehindGate.step sha256 parseDuration held input

/--
A server that closes at a frame boundary before any fault: the relay returns
`Ok`, and it has written every server frame, in order, exactly if the gate has
not closed since the last `ReadyForQuery`.
-/
theorem server_close_lossless
    (id : Nat)
    (startup : StartupMetadata)
    (scenarios : List Scenario)
    (inputs : List Input)
    (loopPoint :
      ((start id startup scenarios).run sha256 parseDuration inputs).exit =
        none)
    (unfired :
      ∀ m ∈ ((start id startup scenarios).run sha256 parseDuration
          inputs).matchers,
        m.fired = false) :
    let closed :=
      (start id startup scenarios).run sha256 parseDuration
        (inputs ++ [.server .eof])
    closed.exit = some .ok ∧
      (closed.toClient.map Delivery.frame = serverFrames inputs ↔
        ¬ GateClosed sha256 parseDuration (start id startup scenarios)
            inputs) := by
  intro closed
  generalize reached :
    (start id startup scenarios).run sha256 parseDuration inputs = r at *
  have complete :=
    (transparent_run sha256 parseDuration id startup scenarios
      inputs).complete
  have gate :=
    heldBehindGate_run sha256 parseDuration id startup scenarios inputs
  rw [reached] at complete gate
  have isClosed :
      closed =
        { r with
          sockets := r.sockets ++ [(Side.frontend, Mode.close)] }.finish := by
    have isStep := run_concat sha256 parseDuration
      (start id startup scenarios) inputs (.server .eof)
    rw [reached, step, loopPoint] at isStep
    exact isStep
  obtain ⟨-, downstream⟩ := complete loopPoint unfired
  have frames :
      r.toClient.map Delivery.frame ++ r.held.map Delivery.frame =
        serverFrames inputs := by
    rw [← List.map_append, downstream, map_arrivals]
  rw [isClosed]
  refine ⟨rfl, ?_⟩
  rw [← gate loopPoint unfired, ← frames, not_not]
  simp [finish]

end

/-- A select that runs to its `ReadyForQuery`. -/
def settledSelect : List Input :=
  [.client (.frame (message 'Q' (ascii "SELECT 1" ++ [0]))),
    .server (.frame rowOfOne),
    .server (.frame (message 'C' (ascii "SELECT 1" ++ [0]))),
    .server (.frame (message 'Z' (ascii "I")))]

theorem server_close_lossless_settledSelect :
    ((start 1 default [dropCommit]).run sampleSha256 (fun _ => .ok 0)
        (settledSelect ++ [.server .eof])).toClient.map Delivery.frame =
      serverFrames settledSelect := by
  obtain ⟨-, lossless⟩ :=
    server_close_lossless sampleSha256 (fun _ => .ok 0) 1 default
      [dropCommit] settledSelect (by decide +kernel) (by decide +kernel)
  refine lossless.mpr ?_
  have unheld :=
    heldBehindGate_run sampleSha256 (fun _ => .ok 0) 1 default [dropCommit]
      settledSelect (by decide +kernel) (by decide +kernel)
  rw [← unheld]
  decide +kernel

/--
The server acknowledges a commit and closes.  The scenario looks at another
connection, and still the acknowledgement is lost.
-/
theorem server_close_loses_commit :
    let scenario : Scenario :=
      { dropCommit with selector := { connectionOrdinal := some 2 } }
    let closed :=
      (start 1 default [scenario]).run sampleSha256 (fun _ => .ok 0)
        (gatedCommit ++ [.server .eof])
    closed.exit = some .ok ∧
      (∀ m ∈ closed.matchers, m.fired = false) ∧
      closed.toClient = [] ∧ serverFrames gatedCommit ≠ [] := by
  decide +kernel

end Relay

end Pgfault
