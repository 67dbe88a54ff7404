import Pgfault.RelayTurn

namespace Pgfault

open Queue ConnectionState

/-!
# Byte transparency of the relay

Frames leave the relay unmodified, in order and at most once.  Until a matcher
fires nothing is lost either: what was written to the client and what is still
held are together everything the server sent.
-/

namespace Relay

/-- The client frames among the inputs. -/
def clientFrames (inputs : List Input) : List Frame :=
  inputs.filterMap fun
    | .client (.frame f) => some f
    | _ => none

/-- The server frames among the inputs. -/
def serverFrames (inputs : List Input) : List Frame :=
  inputs.filterMap fun
    | .server (.frame f) => some f
    | _ => none

/-- The server frames among the inputs with their positions. -/
def arrivals (inputs : List Input) : List Delivery :=
  (serverFrames inputs).mapIdx fun i f => ⟨i, f⟩

/-- The bytes held behind the gate. -/
def heldBytes (held : List Delivery) : Nat :=
  (held.map fun d => d.frame.raw.length).sum

@[simp] theorem clientFrames_append (before after : List Input) :
    clientFrames (before ++ after) =
      clientFrames before ++ clientFrames after :=
  List.filterMap_append

@[simp] theorem serverFrames_append (before after : List Input) :
    serverFrames (before ++ after) =
      serverFrames before ++ serverFrames after :=
  List.filterMap_append

/-- One more server frame is one more arrival. -/
theorem arrivals_server (inputs : List Input) (f : Frame) :
    arrivals (inputs ++ [.server (.frame f)]) =
      arrivals inputs ++ [⟨(serverFrames inputs).length, f⟩] := by
  unfold arrivals
  rw [serverFrames_append]
  exact List.mapIdx_concat

/-- Anything but a server frame is no arrival. -/
theorem arrivals_of_silent
    (inputs : List Input)
    {input : Input}
    (silent : serverFrames [input] = []) :
    arrivals (inputs ++ [input]) = arrivals inputs := by
  unfold arrivals
  rw [serverFrames_append, silent, List.append_nil]

/-- The arrivals are the server frames. -/
@[simp] theorem map_arrivals (inputs : List Input) :
    (arrivals inputs).map Delivery.frame = serverFrames inputs := by
  unfold arrivals
  apply List.ext_getElem
  · simp
  · intro i _ _
    simp

/-- The invariant behind transparency, for every list of inputs read so far. -/
structure Transparent (inputs : List Input) (r : Relay) : Prop where
  received : r.exit = none → r.received = (serverFrames inputs).length
  upstream : r.toServer.Sublist (clientFrames inputs)
  downstream : (r.toClient ++ r.held).Sublist (arrivals inputs)
  complete :
    r.exit = none →
    (∀ m ∈ r.matchers, m.fired = false) →
    r.toServer = clientFrames inputs ∧
      r.toClient ++ r.held = arrivals inputs
  size :
    r.exit = none →
    r.heldSize = heldBytes r.held ∧ r.heldSize ≤ gateLimit

theorem transparent_start
    (id : Nat)
    (startup : StartupMetadata)
    (scenarios : List Scenario) :
    Transparent [] (start id startup scenarios) where
  received := fun _ => rfl
  upstream := List.Sublist.refl []
  downstream := List.Sublist.refl []
  complete := fun _ _ => ⟨rfl, rfl⟩
  size := fun _ => ⟨rfl, Nat.zero_le _⟩

/-- Leaving the loop keeps everything but the loop point. -/
theorem Transparent.leave
    {inputs : List Input}
    {r t : Relay}
    (transparent : Transparent inputs r)
    (input : Input)
    (exited : t.exit.isSome = true)
    (toServer : t.toServer = r.toServer)
    (toClient : t.toClient = r.toClient)
    (held : t.held = r.held) :
    Transparent (inputs ++ [input]) t := by
  have gone : t.exit ≠ none := by
    rw [← Option.isSome_iff_ne_none]
    exact exited
  refine ⟨fun running => absurd running gone, ?_, ?_,
    fun running => absurd running gone, fun running => absurd running gone⟩
  · rw [toServer, clientFrames_append]
    exact transparent.upstream.trans (List.sublist_append_left _ _)
  · rw [toClient, held]
    refine transparent.downstream.trans ?_
    unfold arrivals
    rw [serverFrames_append, List.mapIdx_append]
    exact List.sublist_append_left _ _

/-- The client branch keeps the invariant. -/
theorem Transparent.client
    {sha256 : Bytes → String}
    {inputs : List Input}
    {r t : Relay}
    {f : Frame}
    (transparent : Transparent inputs r)
    (running : r.exit = none)
    (turn : ClientTurn sha256 r f t) :
    Transparent (inputs ++ [.client (.frame f)]) t := by
  have sameArrivals :
      arrivals (inputs ++ [.client (.frame f)]) = arrivals inputs :=
    arrivals_of_silent inputs rfl
  have oneMore :
      clientFrames (inputs ++ [.client (.frame f)]) =
        clientFrames inputs ++ [f] := by
    rw [clientFrames_append]
    rfl
  refine ⟨?_, ?_, ?_, ?_, ?_⟩
  · intro _
    rw [turn.received, transparent.received running, serverFrames_append]
    simp [serverFrames]
  · rw [oneMore]
    rcases turn.toServer with stopped | sent
    · rw [stopped]
      exact transparent.upstream.trans (List.sublist_append_left _ _)
    · rw [sent]
      exact transparent.upstream.append (List.Sublist.refl [f])
  · rw [turn.toClient, turn.held, sameArrivals]
    exact transparent.downstream
  · intro _ unmarked
    obtain ⟨upstream, downstream⟩ :=
      transparent.complete running (unfired_of_follows turn.follows unmarked)
    rw [turn.silent unmarked, oneMore, upstream, turn.toClient, turn.held,
      sameArrivals]
    exact ⟨rfl, downstream⟩
  · intro _
    rw [turn.heldSize, turn.held]
    exact transparent.size running

/-- The server branch keeps the invariant, whatever route the frame takes. -/
theorem Transparent.server
    {parseDuration : String → Except String Nat}
    {inputs : List Input}
    {r t : Relay}
    {f : Frame}
    (transparent : Transparent inputs r)
    (running : r.exit = none)
    (turn : ServerTurn parseDuration r f t) :
    Transparent (inputs ++ [.server (.frame f)]) t := by
  have sameClient :
      clientFrames (inputs ++ [.server (.frame f)]) = clientFrames inputs := by
    rw [clientFrames_append]
    exact List.append_nil _
  have arrived :
      arrivals (inputs ++ [.server (.frame f)]) =
        arrivals inputs ++ [⟨r.received, f⟩] := by
    rw [arrivals_server, transparent.received running]
  have unsuppressed (unmarked : ∀ m ∈ t.matchers, m.fired = false) :
      (r.observeServer parseDuration f).2.suppress = false := by
    rw [turn.silent unmarked]
  have completeBefore (unmarked : ∀ m ∈ t.matchers, m.fired = false) :=
    transparent.complete running (unfired_of_follows turn.follows unmarked)
  have upstream : t.toServer.Sublist (clientFrames inputs) := by
    rw [turn.toServer]
    exact transparent.upstream
  obtain ⟨sizeBefore, boundBefore⟩ := transparent.size running
  have count :
      t.exit = none →
      t.received =
        (serverFrames (inputs ++ [.server (.frame f)])).length := by
    intro _
    rw [turn.received, transparent.received running, serverFrames_append]
    simp [serverFrames]
  have earlier :
      (r.toClient ++ r.held).Sublist
        (arrivals inputs ++ [⟨r.received, f⟩]) :=
    transparent.downstream.trans (List.sublist_append_left _ _)
  have clientEarlier :
      r.toClient.Sublist (arrivals inputs ++ [⟨r.received, f⟩]) :=
    (List.sublist_append_left _ _).trans earlier
  cases turn.delivers with
  | left exited held toClient =>
      exact transparent.leave _ exited turn.toServer toClient held
  | settled ready held heldSize toClient =>
      refine ⟨count, by rw [sameClient]; exact upstream, ?_, ?_, ?_⟩
      · rw [arrived, held, toClient, List.append_nil]
        split
        · exact clientEarlier
        · exact transparent.downstream.append (List.Sublist.refl _)
      · intro _ unmarked
        obtain ⟨sent, written⟩ := completeBefore unmarked
        rw [arrived, sameClient, held, toClient, turn.toServer,
          unsuppressed unmarked]
        exact ⟨sent, by simp [← written]⟩
      · intro _
        rw [heldSize, held]
        exact ⟨rfl, Nat.zero_le _⟩
  | dropped other suppressed held heldSize toClient =>
      refine ⟨count, by rw [sameClient]; exact upstream, ?_, ?_, ?_⟩
      · rw [arrived, held, toClient]
        exact earlier
      · intro _ unmarked
        rw [unsuppressed unmarked] at suppressed
        cases suppressed
      · intro _
        rw [heldSize, held]
        exact ⟨sizeBefore, boundBefore⟩
  | held other notSuppressed held heldSize bound toClient =>
      refine ⟨count, by rw [sameClient]; exact upstream, ?_, ?_, ?_⟩
      · rw [arrived, held, toClient, ← List.append_assoc]
        exact transparent.downstream.append (List.Sublist.refl _)
      · intro _ unmarked
        obtain ⟨sent, written⟩ := completeBefore unmarked
        rw [arrived, sameClient, held, toClient, turn.toServer]
        exact ⟨sent, by simp [← written]⟩
      · intro _
        refine ⟨?_, bound⟩
        rw [heldSize, held, sizeBefore]
        simp [heldBytes]
  | written other notSuppressed ungated wasEmpty held heldSize toClient =>
      rw [wasEmpty] at earlier completeBefore
      rw [List.append_nil] at earlier
      refine ⟨count, by rw [sameClient]; exact upstream, ?_, ?_, ?_⟩
      · have before : r.toClient.Sublist (arrivals inputs) :=
          (List.sublist_append_left _ _).trans transparent.downstream
        rw [arrived, held, toClient, List.append_nil]
        exact before.append (List.Sublist.refl _)
      · intro _ unmarked
        obtain ⟨sent, written⟩ := completeBefore unmarked
        rw [arrived, sameClient, held, toClient, turn.toServer]
        exact ⟨sent, by simp [← written]⟩
      · intro _
        rw [heldSize, held, sizeBefore, wasEmpty]
        exact ⟨rfl, Nat.zero_le _⟩

section

variable (sha256 : Bytes → String) (parseDuration : String → Except String Nat)

/-- One turn keeps the invariant. -/
theorem Transparent.step
    {inputs : List Input}
    {r : Relay}
    (transparent : Transparent inputs r)
    (input : Input) :
    Transparent (inputs ++ [input]) (r.step sha256 parseDuration input) := by
  cases exited : r.exit.isSome with
  | true =>
      rw [step_of_exit sha256 parseDuration exited]
      exact transparent.leave input exited rfl rfl rfl
  | false =>
      have running : r.exit = none := by simpa using exited
      unfold Relay.step
      rw [if_neg (by simp [exited])]
      match input with
      | .client (.frame f) =>
          exact transparent.client running
            (clientFrame_turn sha256 parseDuration r f)
      | .client .eof =>
          exact transparent.leave _ rfl rfl rfl rfl
      | .client (.error _) =>
          exact transparent.leave _ rfl rfl rfl rfl
      | .server (.frame f) =>
          exact transparent.server running (serverFrame_turn parseDuration r f)
      | .server .eof =>
          exact transparent.leave _ rfl rfl rfl rfl
      | .server (.error _) =>
          exact transparent.leave _ rfl rfl rfl rfl

/-- The invariant holds after every run. -/
theorem transparent_run
    (id : Nat)
    (startup : StartupMetadata)
    (scenarios : List Scenario)
    (inputs : List Input) :
    Transparent inputs
      ((start id startup scenarios).run sha256 parseDuration inputs) :=
  Machine.run_induction (transparent_start id startup scenarios)
    (fun _ input before =>
      before.step sha256 parseDuration input) inputs

/-- The route of a `ReadyForQuery` empties the gate or leaves the loop. -/
theorem held_of_ready
    {r : Relay}
    {f : Frame}
    (ready : f.backendTag = .readyForQuery)
    (loopPoint :
      (r.step sha256 parseDuration (.server (.frame f))).exit = none) :
    (r.step sha256 parseDuration (.server (.frame f))).held = [] := by
  cases exited : r.exit.isSome with
  | true =>
      rw [step_of_exit sha256 parseDuration exited] at loopPoint
      simp [loopPoint] at exited
  | false =>
      have isTurn :
          r.step sha256 parseDuration (.server (.frame f)) =
            r.serverFrame parseDuration f :=
        if_neg (by simp [exited])
      rw [isTurn] at loopPoint ⊢
      cases (serverFrame_turn parseDuration r f).delivers with
      | left gone _ _ =>
          simp [loopPoint] at gone
      | settled _ held _ _ =>
          exact held
      | dropped other _ _ _ _ =>
          exact absurd ready other
      | held other _ _ _ _ _ =>
          exact absurd ready other
      | written other _ _ _ _ _ _ =>
          exact absurd ready other

/--
Byte transparency.  At every loop point the frames written are subsequences of
the frames read; before the first fault nothing is missing; and the gate counts
its bytes, stays below its limit, and is empty behind a `ReadyForQuery`.
-/
theorem relay_transparent
    (id : Nat)
    (startup : StartupMetadata)
    (scenarios : List Scenario)
    (inputs : List Input)
    (loopPoint :
      ((start id startup scenarios).run sha256 parseDuration inputs).exit =
        none) :
    let r := (start id startup scenarios).run sha256 parseDuration inputs
    (r.toServer.Sublist (clientFrames inputs) ∧
        (r.toClient.map Delivery.frame).Sublist (serverFrames inputs)) ∧
      ((∀ m ∈ r.matchers, m.fired = false) →
        r.toServer = clientFrames inputs ∧
          r.toClient.map Delivery.frame ++ r.held.map Delivery.frame =
            serverFrames inputs) ∧
      (r.heldSize = heldBytes r.held ∧ r.heldSize ≤ 1024 * 1024 ∧
        ∀ before f,
          inputs = before ++ [.server (.frame f)] →
          f.backendTag = .readyForQuery →
          r.held = []) := by
  intro r
  have transparent :=
    transparent_run sha256 parseDuration id startup scenarios inputs
  refine ⟨⟨transparent.upstream, ?_⟩, ?_, ?_⟩
  · have written : r.toClient.Sublist (arrivals inputs) :=
      (List.sublist_append_left _ _).trans transparent.downstream
    have frames := written.map Delivery.frame
    rwa [map_arrivals] at frames
  · intro unmarked
    obtain ⟨upstream, downstream⟩ := transparent.complete loopPoint unmarked
    refine ⟨upstream, ?_⟩
    rw [← List.map_append, downstream, map_arrivals]
  · obtain ⟨size, bound⟩ := transparent.size loopPoint
    refine ⟨size, bound, ?_⟩
    rintro before f rfl ready
    have isStep :
        r =
          ((start id startup scenarios).run sha256 parseDuration before).step
            sha256 parseDuration (.server (.frame f)) :=
      Machine.run_append _ _ before [.server (.frame f)]
    have atLoopPoint : r.exit = none := loopPoint
    rw [isStep] at atLoopPoint ⊢
    exact held_of_ready sha256 parseDuration ready atLoopPoint

end

/-- Drop the acknowledgement of the first commit. -/
def dropCommit : Scenario where
  version := 1
  name := "drop-commit"
  when := { event := "transaction.commit.completed" }
  action := { suppress := some ⟨true⟩ }

/-- A commit whose acknowledgement waits behind the gate. -/
def gatedCommit : List Input :=
  [.client (.frame (message 'Q' (ascii "COMMIT" ++ [0]))),
    .server (.frame (message 'C' (ascii "COMMIT" ++ [0]))),
    .server (.frame (message 'N' []))]

theorem relay_transparent_gatedCommit :
    let r :=
      (start 1 default [dropCommit]).run sampleSha256 (fun _ => .ok 0)
        gatedCommit
    r.exit = none ∧ r.held.length = 2 ∧ r.heldSize = heldBytes r.held ∧
      r.toServer = clientFrames gatedCommit ∧
      r.toClient.map Delivery.frame ++ r.held.map Delivery.frame =
        serverFrames gatedCommit := by
  have loopPoint :
      ((start 1 default [dropCommit]).run sampleSha256 (fun _ => .ok 0)
        gatedCommit).exit = none := by
    decide +kernel
  obtain ⟨-, complete, size, -, -⟩ :=
    relay_transparent sampleSha256 (fun _ => .ok 0) 1 default [dropCommit]
      gatedCommit loopPoint
  obtain ⟨upstream, downstream⟩ := complete (by decide +kernel)
  exact ⟨loopPoint, by decide +kernel, size, upstream, downstream⟩

end Relay

end Pgfault
