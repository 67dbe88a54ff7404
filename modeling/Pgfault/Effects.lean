import Pgfault.Endings

namespace Pgfault

open ConnectionState

/-!
# The order of effects

A turn of the relay is not one step to the outside: `apply` writes a record, then
severs a socket, then goes on to the next matcher; a frame is written between two
calls of `apply`.  `Relay.effects` lists the effects of a turn in the order of the
source, and `run_performs` says that a run of the relay does just these.

A write, a shutdown, a reset and a record can fail, and then `connection` returns:
what has happened is some first part of the list.
-/

/-- Something the loop does to the outside. -/
inductive Effect where
  | record (r : Record)
  | toServer (f : Frame)
  | toClient (d : Delivery)
  | sever (side : Side) (mode : Mode)

namespace Effect

def record? : Effect → Option Record
  | .record r => some r
  | _ => none

def toServer? : Effect → Option Frame
  | .toServer f => some f
  | _ => none

def toClient? : Effect → Option Delivery
  | .toClient d => some d
  | _ => none

def sever? : Effect → Option (Side × Mode)
  | .sever side mode => some (side, mode)
  | _ => none

/-- The records among some effects. -/
def records (es : List Effect) : List Record :=
  es.filterMap record?

/-- The frames written to the server. -/
def sent (es : List Effect) : List Frame :=
  es.filterMap toServer?

/-- The frames written to the client. -/
def delivered (es : List Effect) : List Delivery :=
  es.filterMap toClient?

/-- The sockets severed. -/
def severs (es : List Effect) : List (Side × Mode) :=
  es.filterMap sever?

section

variable (es later : List Effect)

@[simp] theorem records_append :
    records (es ++ later) = records es ++ records later :=
  List.filterMap_append

@[simp] theorem sent_append : sent (es ++ later) = sent es ++ sent later :=
  List.filterMap_append

@[simp] theorem delivered_append :
    delivered (es ++ later) = delivered es ++ delivered later :=
  List.filterMap_append

@[simp] theorem severs_append :
    severs (es ++ later) = severs es ++ severs later :=
  List.filterMap_append

end

end Effect

/-! ## The effects of `apply` -/

section

variable (parseDuration : String → Except String Nat)

/-- A fired scenario is recorded, waits, and severs; a bad delay text fails. -/
def fireEffects (e : Event) (s : Scenario) : List Effect × Bool :=
  let severs :=
    (s.action.disconnect.map fun d => Effect.sever d.side d.mode).toList
  match s.action.delay with
  | some delay =>
      match parseDuration delay.duration with
      | .ok _ => (.record (.fault e s) :: severs, false)
      | .error _ => ([.record (.fault e s)], true)
  | none => (.record (.fault e s) :: severs, false)

/-- The inner loop of `apply`, and whether it has failed. -/
def matcherEffects (e : Event) : List Matcher → List Effect × Bool
  | [] => ([], false)
  | m :: rest =>
      let fired :=
        if (m.observe e).1 then fireEffects parseDuration e m.scenario
        else ([], false)
      if fired.2 then
        fired
      else
        let later := matcherEffects e rest
        (fired.1 ++ later.1, later.2)

/-- The outer loop of `apply`, and whether it has failed. -/
def eventEffects : List Event → List Matcher → List Effect × Bool
  | [], _ => ([], false)
  | e :: rest, matchers =>
      let shown := matcherEffects parseDuration e matchers
      if shown.2 then
        (.record (.semantic e) :: shown.1, true)
      else
        let later := eventEffects rest (matchers.map fun m => (m.observe e).2)
        (.record (.semantic e) :: (shown.1 ++ later.1), later.2)

/-- What some effects do to the variables of `apply`. -/
structure Applied.Does (a : Applied) (es : List Effect) (b : Applied) : Prop where
  trace : b.trace = a.trace ++ Effect.records es
  sockets : b.sockets = a.sockets ++ Effect.severs es
  sent : Effect.sent es = []
  delivered : Effect.delivered es = []
  disconnect :
    b.disposition.disconnect = false →
      a.disposition.disconnect = false ∧ Effect.severs es = []

theorem Applied.Does.refl (a : Applied) : a.Does [] a where
  trace := (List.append_nil _).symm
  sockets := (List.append_nil _).symm
  sent := rfl
  delivered := rfl
  disconnect := fun stays => ⟨stays, rfl⟩

theorem Applied.Does.trans
    {a b c : Applied}
    {es later : List Effect}
    (first : a.Does es b)
    (second : b.Does later c) :
    a.Does (es ++ later) c where
  trace := by
    rw [second.trace, first.trace, Effect.records_append, List.append_assoc]
  sockets := by
    rw [second.sockets, first.sockets, Effect.severs_append,
      List.append_assoc]
  sent := by rw [Effect.sent_append, first.sent, second.sent, List.append_nil]
  delivered := by
    rw [Effect.delivered_append, first.delivered, second.delivered,
      List.append_nil]
  disconnect := fun stays => by
    obtain ⟨between, noneLater⟩ := second.disconnect stays
    obtain ⟨before, noneFirst⟩ := first.disconnect between
    exact ⟨before, by rw [Effect.severs_append, noneFirst, noneLater]; rfl⟩

/-- A fired scenario. -/
theorem Applied.fire_does
    {a : Applied}
    (noError : a.error = none)
    (e : Event)
    (s : Scenario) :
    a.Does (fireEffects parseDuration e s).1 (a.fire parseDuration e s) ∧
      (a.fire parseDuration e s).error.isSome =
        (fireEffects parseDuration e s).2 := by
  have acted :
      a.Does
        (.record (.fault e s) ::
          (s.action.disconnect.map fun d =>
            Effect.sever d.side d.mode).toList)
        ({ a with trace := a.trace ++ [Record.fault e s] }.act s.action) := by
    cases asked : s.action.disconnect with
    | none =>
        refine ⟨rfl, by simp [act, asked, Effect.severs, Effect.sever?], rfl,
          rfl, fun stays => ⟨?_, rfl⟩⟩
        simpa [act, asked] using stays
    | some disconnect =>
        refine ⟨rfl, ?_, rfl, rfl, fun stays => ?_⟩
        · simp only [act, asked, Option.map_some, Option.toList_some]
          rfl
        · simp [act, asked] at stays
  have calm (b : Applied) (action : Action) :
      (b.act action).error = b.error := rfl
  unfold fire fireEffects
  cases s.action.delay with
  | none =>
      exact ⟨acted, by simp only [calm, noError]; rfl⟩
  | some delay =>
      simp only
      cases parseDuration delay.duration with
      | ok duration =>
          exact ⟨acted, by simp only [calm, noError]; rfl⟩
      | error message =>
          exact ⟨⟨rfl, (List.append_nil _).symm, rfl, rfl,
            fun stays => ⟨stays, rfl⟩⟩, rfl⟩

theorem applyMatchers_does
    (e : Event)
    (matchers : List Matcher)
    {a : Applied}
    (noError : a.error = none) :
    a.Does (matcherEffects parseDuration e matchers).1
        (applyMatchers parseDuration e matchers a).2 ∧
      (applyMatchers parseDuration e matchers a).2.error.isSome =
        (matcherEffects parseDuration e matchers).2 ∧
      ((matcherEffects parseDuration e matchers).2 = false →
        (applyMatchers parseDuration e matchers a).1 =
          matchers.map fun m => (m.observe e).2) := by
  induction matchers generalizing a with
  | nil =>
      exact ⟨Applied.Does.refl a, by rw [applyMatchers, noError]; rfl,
        fun _ => rfl⟩
  | cons m rest inductionHypothesis =>
      simp only [applyMatchers, matcherEffects]
      have shown :
          a.Does
              (if (m.observe e).1 = true then
                fireEffects parseDuration e m.scenario
              else ([], false)).1
              (if (m.observe e).1 = true then
                a.fire parseDuration e m.scenario
              else a) ∧
            (if (m.observe e).1 = true then
                a.fire parseDuration e m.scenario
              else a).error.isSome =
              (if (m.observe e).1 = true then
                fireEffects parseDuration e m.scenario
              else ([], false)).2 := by
        split
        · exact Applied.fire_does parseDuration noError e m.scenario
        · exact ⟨Applied.Does.refl a, by rw [noError]; rfl⟩
      generalize
        (if (m.observe e).1 = true then
          fireEffects parseDuration e m.scenario
        else ([], false)) = fired at shown ⊢
      generalize
        (if (m.observe e).1 = true then a.fire parseDuration e m.scenario
        else a) = next at shown ⊢
      obtain ⟨does, failed⟩ := shown
      rw [failed]
      cases isFailed : fired.2 with
      | true =>
          simp only [if_true]
          exact ⟨does, failed, fun calm => by rw [isFailed] at calm; cases calm⟩
      | false =>
          have goesOn : next.error = none := by
            rw [isFailed] at failed
            simpa using failed
          obtain ⟨later, failedLater, matchers⟩ := inductionHypothesis goesOn
          simp only [Bool.false_eq_true, if_false]
          refine ⟨does.trans later, failedLater, fun calm => ?_⟩
          rw [matchers calm, List.map_cons]

theorem applyEvents_does
    (events : List Event)
    (matchers : List Matcher)
    {a : Applied}
    (noError : a.error = none) :
    a.Does (eventEffects parseDuration events matchers).1
        (applyEvents parseDuration events matchers a).2 ∧
      (applyEvents parseDuration events matchers a).2.error.isSome =
        (eventEffects parseDuration events matchers).2 := by
  induction events generalizing matchers a with
  | nil =>
      exact ⟨Applied.Does.refl a, by rw [applyEvents, noError]; rfl⟩
  | cons e rest inductionHypothesis =>
      have recorded :
          a.Does [.record (.semantic e)]
            { a with trace := a.trace ++ [.semantic e] } :=
        ⟨rfl, (List.append_nil _).symm, rfl, rfl, fun stays => ⟨stays, rfl⟩⟩
      obtain ⟨does, failed, kept⟩ :=
        applyMatchers_does parseDuration e matchers
          (a := { a with trace := a.trace ++ [.semantic e] }) noError
      simp only [applyEvents, eventEffects]
      rw [failed]
      cases isFailed : (matcherEffects parseDuration e matchers).2 with
      | true =>
          simp only [if_true]
          exact ⟨recorded.trans does, failed.trans isFailed⟩
      | false =>
          have goesOn :
              (applyMatchers parseDuration e matchers
                { a with trace := a.trace ++ [.semantic e] }).2.error =
                none := by
            rw [isFailed] at failed
            simpa using failed
          obtain ⟨later, failedLater⟩ :=
            inductionHypothesis (matchers.map fun m => (m.observe e).2) goesOn
          simp only [Bool.false_eq_true, if_false]
          rw [kept isFailed]
          exact ⟨recorded.trans (does.trans later), failedLater⟩

end

namespace Relay

/-! ## The effects of a turn -/

/-- What some effects do to a relay. -/
structure Performs (r : Relay) (es : List Effect) (t : Relay) : Prop where
  trace : t.trace = r.trace ++ Effect.records es
  toServer : t.toServer = r.toServer ++ Effect.sent es
  toClient : t.toClient = r.toClient ++ Effect.delivered es
  sockets : t.sockets = r.sockets ++ Effect.severs es

theorem Performs.of_same
    {r t u : Relay}
    {es : List Effect}
    (performs : Performs r es t)
    (trace : u.trace = t.trace)
    (toServer : u.toServer = t.toServer)
    (toClient : u.toClient = t.toClient)
    (sockets : u.sockets = t.sockets) :
    Performs r es u :=
  ⟨trace.trans performs.trace, toServer.trans performs.toServer,
    toClient.trans performs.toClient, sockets.trans performs.sockets⟩

theorem Performs.refl (r : Relay) : Performs r [] r where
  trace := (List.append_nil _).symm
  toServer := (List.append_nil _).symm
  toClient := (List.append_nil _).symm
  sockets := (List.append_nil _).symm

theorem Performs.trans
    {r t u : Relay}
    {es later : List Effect}
    (first : Performs r es t)
    (second : Performs t later u) :
    Performs r (es ++ later) u where
  trace := by
    rw [second.trace, first.trace, Effect.records_append, List.append_assoc]
  toServer := by
    rw [second.toServer, first.toServer, Effect.sent_append,
      List.append_assoc]
  toClient := by
    rw [second.toClient, first.toClient, Effect.delivered_append,
      List.append_assoc]
  sockets := by
    rw [second.sockets, first.sockets, Effect.severs_append,
      List.append_assoc]

section

variable (sha256 : Bytes → String) (parseDuration : String → Except String Nat)

/-- The effects of `apply`. -/
def applyEffects (r : Relay) (events : List Event) : List Effect :=
  (eventEffects parseDuration events r.matchers).1

/-- The effects of forwarding a client frame. -/
def forwardEffects (r : Relay) (f : Frame) : List Effect :=
  .toServer f ::
    if f.frontendTag = .query ∨ f.frontendTag = .execute then
      r.applyEffects parseDuration [r.state.forwarded.1]
    else
      []

/-- The effects of the client branch. -/
def clientEffects (r : Relay) (f : Frame) : List Effect :=
  let observed := r.state.frontend sha256 f
  let applied := { r with state := observed.2 }.apply parseDuration observed.1
  r.applyEffects parseDuration observed.1 ++
    if applied.1.exit.isSome ∨ applied.2.disconnect ∨ applied.2.suppress then
      []
    else
      applied.1.forwardEffects parseDuration f

/-- The effects of cutting a result off. -/
def cutEffects (r : Relay) : List Effect :=
  [.sever .frontend .reset,
    .record (.lifecycle r.state.id "result.truncated" "")]

/-- What is written to the client of a server frame and of those held. -/
def deliverEffects
    (r : Relay)
    (gate suppress : Bool)
    (d : Delivery) : List Effect :=
  if d.frame.backendTag = .readyForQuery then
    if suppress then [] else r.held.map .toClient ++ [.toClient d]
  else if suppress then
    []
  else if gate ∨ r.held ≠ [] then
    []
  else
    [.toClient d]

/-- The effects of the server branch. -/
def serverEffects (r : Relay) (f : Frame) : List Effect :=
  let applied := r.observeServer parseDuration f
  let counted :=
    if f.backendTag = .dataRow then
      { applied.1 with truncate := applied.1.truncate.map (· - 1) }
    else
      applied.1
  let delivered :=
    counted.deliver (r.gate f) applied.2.suppress ⟨r.received, f⟩
  r.applyEffects parseDuration (r.state.backend f).1 ++
    if applied.1.exit.isSome ∨ applied.2.disconnect then
      []
    else if f.backendTag = .dataRow ∧ applied.1.truncate = some 0 then
      applied.1.cutEffects
    else
      counted.deliverEffects (r.gate f) applied.2.suppress ⟨r.received, f⟩ ++
        if delivered.exit.isNone ∧ f.backendTag = .dataRow ∧
            delivered.truncate = some 0 then
          delivered.cutEffects
        else
          []

/-- The effects of one turn, in the order of the source. -/
def effects (r : Relay) (input : Input) : List Effect :=
  if r.exit.isSome then
    []
  else
    match input with
    | .client (.frame f) => r.clientEffects sha256 parseDuration f
    | .client .eof => [.sever .upstream .close]
    | .client (.error _) => []
    | .server (.frame f) => r.serverEffects parseDuration f
    | .server .eof => [.sever .frontend .close]
    | .server (.error _) => []

/-- The effects of a run. -/
def runEffects (r : Relay) : List Input → List Effect
  | [] => []
  | input :: rest =>
      r.effects sha256 parseDuration input ++
        (r.step sha256 parseDuration input).runEffects rest

/-! ## A run does its effects -/

theorem apply_performs (r : Relay) (events : List Event) :
    Performs r (r.applyEffects parseDuration events)
      (r.apply parseDuration events).1 := by
  obtain ⟨⟨trace, sockets, sent, delivered, -⟩, -⟩ :=
    applyEvents_does parseDuration events r.matchers (a := r.borrow) rfl
  refine ⟨trace, ?_, ?_, sockets⟩
  · rw [applyEffects, sent, List.append_nil]
    rfl
  · rw [applyEffects, delivered, List.append_nil]
    rfl

theorem forward_performs (r : Relay) (f : Frame) :
    Performs r (r.forwardEffects parseDuration f)
      (r.forward parseDuration f) := by
  have sent :
      Performs r [.toServer f]
        { r with
          toServer := r.toServer ++ [f]
          state := r.state.forwarded.2 } :=
    ⟨(List.append_nil _).symm, rfl, (List.append_nil _).symm,
      (List.append_nil _).symm⟩
  have applied :=
    sent.trans
      (apply_performs parseDuration
        { r with
          toServer := r.toServer ++ [f]
          state := r.state.forwarded.2 }
        [r.state.forwarded.1])
  unfold forward forwardEffects
  simp only
  split
  · split
    · exact applied.of_same rfl rfl rfl rfl
    · exact applied
  · exact sent.of_same rfl rfl rfl rfl

theorem clientFrame_performs (r : Relay) (f : Frame) :
    Performs r (r.clientEffects sha256 parseDuration f)
      (r.clientFrame sha256 parseDuration f) := by
  have observed :
      Performs r (r.applyEffects parseDuration (r.state.frontend sha256 f).1)
        (apply parseDuration { r with state := (r.state.frontend sha256 f).2 }
          (r.state.frontend sha256 f).1).1 := by
    obtain ⟨trace, toServer, toClient, sockets⟩ :=
      apply_performs parseDuration
        { r with state := (r.state.frontend sha256 f).2 }
        (r.state.frontend sha256 f).1
    exact ⟨trace, toServer, toClient, sockets⟩
  unfold clientFrame clientEffects
  simp only
  generalize
    apply parseDuration { r with state := (r.state.frontend sha256 f).2 }
      (r.state.frontend sha256 f).1 = shown at observed ⊢
  generalize
    r.applyEffects parseDuration (r.state.frontend sha256 f).1 = first
      at observed ⊢
  have forwarded := observed.trans (forward_performs parseDuration shown.1 f)
  by_cases exits : shown.1.exit.isSome = true
  · rw [if_pos exits, if_pos (Or.inl exits), List.append_nil]
    exact observed
  · rw [if_neg exits]
    by_cases disconnects : shown.2.disconnect = true
    · rw [if_pos disconnects, if_pos (Or.inr (Or.inl disconnects)),
        List.append_nil]
      exact observed.of_same rfl rfl rfl rfl
    · rw [if_neg disconnects]
      by_cases suppressed : shown.2.suppress = true
      · rw [if_pos suppressed, if_pos (Or.inr (Or.inr suppressed)),
          List.append_nil]
        split
        · exact observed.of_same rfl rfl rfl rfl
        · exact observed
      · rw [if_neg suppressed,
          if_neg (by simp [exits, disconnects, suppressed])]
        generalize shown.1.forward parseDuration f = last at forwarded ⊢
        split
        · exact forwarded.of_same rfl rfl rfl rfl
        · exact forwarded

theorem cut_performs (r : Relay) : Performs r r.cutEffects r.cut where
  trace := rfl
  toServer := (List.append_nil _).symm
  toClient := (List.append_nil _).symm
  sockets := rfl

/-- Frames written to the client, one after the other. -/
theorem writes_performs (r : Relay) (ds : List Delivery) :
    Performs r (ds.map .toClient) { r with toClient := r.toClient ++ ds } := by
  induction ds generalizing r with
  | nil =>
      exact (Performs.refl r).of_same rfl rfl (List.append_nil _) rfl
  | cons d rest inductionHypothesis =>
      have first :
          Performs r [.toClient d] { r with toClient := r.toClient ++ [d] } :=
        ⟨(List.append_nil _).symm, (List.append_nil _).symm, rfl,
          (List.append_nil _).symm⟩
      refine (first.trans (inductionHypothesis _)).of_same rfl rfl ?_ rfl
      simp

theorem deliver_performs
    (r : Relay)
    (gate suppress : Bool)
    (d : Delivery) :
    Performs r (r.deliverEffects gate suppress d)
      (r.deliver gate suppress d) := by
  have nothing := Performs.refl r
  unfold deliver deliverEffects
  split
  · unfold settle
    split
    · exact nothing.of_same rfl rfl rfl rfl
    · obtain ⟨trace, toServer, toClient, sockets⟩ :=
        writes_performs r (r.held ++ [d])
      rw [List.map_append] at trace toServer toClient sockets
      refine ⟨trace, toServer, ?_, sockets⟩
      rw [← List.append_assoc] at toClient
      exact toClient
  · split
    · exact nothing
    · split
      · unfold hold
        split <;> exact nothing.of_same rfl rfl rfl rfl
      · exact ⟨(List.append_nil _).symm, (List.append_nil _).symm, rfl,
          (List.append_nil _).symm⟩

theorem serverFrame_performs (r : Relay) (f : Frame) :
    Performs r (r.serverEffects parseDuration f)
      (r.serverFrame parseDuration f) := by
  have observed :
      Performs r (r.applyEffects parseDuration (r.state.backend f).1)
        (r.observeServer parseDuration f).1 := by
    obtain ⟨trace, toServer, toClient, sockets⟩ :=
      apply_performs parseDuration
        { r with
          state := (r.state.backend f).2
          received := r.received + 1 }
        (r.state.backend f).1
    exact ⟨trace, toServer, toClient, sockets⟩
  unfold serverFrame serverEffects
  simp only
  generalize r.observeServer parseDuration f = shown at observed ⊢
  generalize
    r.applyEffects parseDuration (r.state.backend f).1 = first at observed ⊢
  by_cases exits : shown.1.exit.isSome = true
  · rw [if_pos exits, if_pos (Or.inl exits), List.append_nil]
    exact observed
  · rw [if_neg exits]
    by_cases disconnects : shown.2.disconnect = true
    · rw [if_pos disconnects, if_pos (Or.inr disconnects), List.append_nil]
      exact observed.of_same rfl rfl rfl rfl
    · rw [if_neg disconnects, if_neg (by simp [exits, disconnects])]
      split
      · exact observed.trans (cut_performs shown.1)
      · have counted :
            Performs r first
              (if f.backendTag = .dataRow then
                { shown.1 with truncate := shown.1.truncate.map (· - 1) }
              else shown.1) := by
          split
          · exact observed.of_same rfl rfl rfl rfl
          · exact observed
        generalize
          (if f.backendTag = .dataRow then
            { shown.1 with truncate := shown.1.truncate.map (· - 1) }
          else shown.1) = before at counted ⊢
        have delivered :=
          counted.trans
            (deliver_performs before (r.gate f) shown.2.suppress
              ⟨r.received, f⟩)
        rw [← List.append_assoc]
        generalize
          before.deliver (r.gate f) shown.2.suppress ⟨r.received, f⟩ = last
            at delivered ⊢
        split
        · exact delivered.trans (cut_performs last)
        · rw [List.append_nil]
          exact delivered

theorem step_performs (r : Relay) (input : Input) :
    Performs r (r.effects sha256 parseDuration input)
      (r.step sha256 parseDuration input) := by
  have nothing := Performs.refl r
  unfold effects step
  split
  · exact nothing
  · cases input with
    | client read =>
        cases read with
        | frame f =>
            exact clientFrame_performs sha256 parseDuration r f
        | eof =>
            exact ⟨nothing.trace, nothing.toServer, nothing.toClient, rfl⟩
        | error message =>
            exact nothing.of_same rfl rfl rfl rfl
    | server read =>
        cases read with
        | frame f =>
            exact serverFrame_performs parseDuration r f
        | eof =>
            exact ⟨nothing.trace, nothing.toServer, nothing.toClient, rfl⟩
        | error message =>
            exact nothing.of_same rfl rfl rfl rfl

theorem run_performs (r : Relay) (inputs : List Input) :
    Performs r (r.runEffects sha256 parseDuration inputs)
      (r.run sha256 parseDuration inputs) := by
  induction inputs generalizing r with
  | nil =>
      exact Performs.refl r
  | cons input rest inductionHypothesis =>
      exact (step_performs sha256 parseDuration r input).trans
        (inductionHypothesis _)

theorem runEffects_append (r : Relay) (inputs later : List Input) :
    r.runEffects sha256 parseDuration (inputs ++ later) =
      r.runEffects sha256 parseDuration inputs ++
        (r.run sha256 parseDuration inputs).runEffects sha256 parseDuration
          later := by
  induction inputs generalizing r with
  | nil =>
      rfl
  | cons input rest inductionHypothesis =>
      simp only [List.cons_append, runEffects, inductionHypothesis,
        List.append_assoc]
      rfl

theorem runEffects_concat
    (r : Relay)
    (inputs : List Input)
    (input : Input) :
    r.runEffects sha256 parseDuration (inputs ++ [input]) =
      r.runEffects sha256 parseDuration inputs ++
        (r.run sha256 parseDuration inputs).effects sha256 parseDuration
          input := by
  rw [runEffects_append]
  exact congrArg _ (List.append_nil _)

/-- Once the loop has ended there are no effects. -/
theorem effects_of_exit
    {r : Relay}
    (exited : r.exit.isSome = true)
    (input : Input) :
    r.effects sha256 parseDuration input = [] := by
  unfold effects
  rw [if_pos exited]

/-! ## The shape of a turn -/

/-- `apply` fails where its effects stop. -/
theorem apply_failed (r : Relay) (events : List Event) :
    (r.apply parseDuration events).1.exit.isSome =
      (eventEffects parseDuration events r.matchers).2 := by
  obtain ⟨-, failed⟩ :=
    applyEvents_does parseDuration events r.matchers (a := r.borrow) rfl
  rw [← failed]
  exact Option.isSome_map

/-- Behind the events of a client frame comes its forwarding, if any. -/
theorem clientEffects_cases (r : Relay) (f : Frame) :
    let shown :=
      apply parseDuration { r with state := (r.state.frontend sha256 f).2 }
        (r.state.frontend sha256 f).1
    let observed := r.applyEffects parseDuration (r.state.frontend sha256 f).1
    let t := r.clientFrame sha256 parseDuration f
    r.clientEffects sha256 parseDuration f = observed ∧
        (t.exit = none →
          shown.1.exit = none ∧ shown.2.disconnect = false) ∨
      r.clientEffects sha256 parseDuration f =
          observed ++ shown.1.forwardEffects parseDuration f ∧
        shown.1.exit = none ∧
        shown.2.disconnect = false ∧
        (t.exit = none → (shown.1.forward parseDuration f).exit = none) := by
  intro shown observed t
  have unfolded :
      r.clientEffects sha256 parseDuration f =
        observed ++
          if shown.1.exit.isSome ∨ shown.2.disconnect ∨ shown.2.suppress then []
          else shown.1.forwardEffects parseDuration f := rfl
  by_cases exits : shown.1.exit.isSome = true
  · have same : t = shown.1 := if_pos exits
    refine Or.inl ⟨?_, fun running => ?_⟩
    · rw [unfolded, if_pos (Or.inl exits), List.append_nil]
    · rw [← same, running] at exits
      cases exits
  · have goesOn : shown.1.exit = none := by
      simpa using exits
    by_cases disconnects : shown.2.disconnect = true
    · have ends : t = shown.1.finish :=
        (if_neg exits).trans (if_pos disconnects)
      refine Or.inl ⟨?_, fun running => ?_⟩
      · rw [unfolded, if_pos (Or.inr (Or.inl disconnects)), List.append_nil]
      · rw [ends] at running
        cases running
    · have stays : shown.2.disconnect = false := by
        simpa using disconnects
      by_cases suppressed : shown.2.suppress = true
      · refine Or.inl ⟨?_, fun _ => ⟨goesOn, stays⟩⟩
        rw [unfolded, if_pos (Or.inr (Or.inr suppressed)), List.append_nil]
      · have passes :
            ¬ (shown.1.exit.isSome = true ∨ shown.2.disconnect = true ∨
              shown.2.suppress = true) := by
          simp [exits, disconnects, suppressed]
        refine Or.inr ⟨?_, goesOn, stays, fun running => ?_⟩
        · rw [unfolded, if_neg passes]
        · change (r.clientFrame sha256 parseDuration f).exit = none at running
          unfold clientFrame at running
          simp only at running
          rw [if_neg exits, if_neg disconnects, if_neg suppressed] at running
          split at running
          · cases running
          · exact running

theorem deliverEffects_eq
    (r : Relay)
    (gate suppress : Bool)
    (d : Delivery) :
    ∃ ds : List Delivery,
      r.deliverEffects gate suppress d = ds.map .toClient := by
  unfold deliverEffects
  split
  · split
    · exact ⟨[], rfl⟩
    · refine ⟨r.held ++ [d], ?_⟩
      rw [List.map_append]
      rfl
  · split
    · exact ⟨[], rfl⟩
    · split
      · exact ⟨[], rfl⟩
      · exact ⟨[d], rfl⟩

/-- Behind the events of a server frame come writes to the client, and a cut. -/
theorem serverEffects_cases (r : Relay) (f : Frame) :
    let shown := r.observeServer parseDuration f
    let observed := r.applyEffects parseDuration (r.state.backend f).1
    let t := r.serverFrame parseDuration f
    r.serverEffects parseDuration f = observed ∧
        (t.exit = none →
          shown.1.exit = none ∧ shown.2.disconnect = false) ∨
      shown.1.exit = none ∧
        shown.2.disconnect = false ∧
        ∃ (ds : List Delivery) (ending : List Effect),
          r.serverEffects parseDuration f =
              observed ++ (ds.map .toClient ++ ending) ∧
            (ending = [] ∨
              t.exit = some .ok ∧ ∃ last : Relay, ending = last.cutEffects) := by
  intro shown observed t
  by_cases exits : shown.1.exit.isSome = true
  · have same : t = shown.1 := if_pos exits
    have unfolded :
        r.serverEffects parseDuration f = observed ++ [] :=
      congrArg (observed ++ ·) (if_pos (Or.inl exits))
    refine Or.inl ⟨unfolded.trans (List.append_nil _), fun running => ?_⟩
    rw [← same, running] at exits
    cases exits
  · have goesOn : shown.1.exit = none := by
      simpa using exits
    by_cases disconnects : shown.2.disconnect = true
    · have ends : t = shown.1.finish :=
        (if_neg exits).trans (if_pos disconnects)
      have unfolded :
          r.serverEffects parseDuration f = observed ++ [] :=
        congrArg (observed ++ ·) (if_pos (Or.inr disconnects))
      refine Or.inl ⟨unfolded.trans (List.append_nil _), fun running => ?_⟩
      rw [ends] at running
      cases running
    · have stays : shown.2.disconnect = false := by
        simpa using disconnects
      have passes :
          ¬ (shown.1.exit.isSome = true ∨ shown.2.disconnect = true) := by
        simp [exits, disconnects]
      refine Or.inr ⟨goesOn, stays, ?_⟩
      change
        ∃ (ds : List Delivery) (ending : List Effect),
          r.serverEffects parseDuration f =
              observed ++ (ds.map .toClient ++ ending) ∧
            (ending = [] ∨
              (r.serverFrame parseDuration f).exit = some .ok ∧
                ∃ last : Relay, ending = last.cutEffects)
      unfold serverEffects serverFrame
      simp only
      rw [if_neg passes, if_neg exits, if_neg disconnects]
      by_cases cuts : f.backendTag = .dataRow ∧ shown.1.truncate = some 0
      · rw [if_pos cuts, if_pos cuts]
        exact ⟨[], shown.1.cutEffects, rfl, Or.inr ⟨rfl, shown.1, rfl⟩⟩
      · rw [if_neg cuts, if_neg cuts]
        generalize
          (if f.backendTag = .dataRow then
            { (r.observeServer parseDuration f).1 with
              truncate :=
                (r.observeServer parseDuration f).1.truncate.map (· - 1) }
          else (r.observeServer parseDuration f).1) = before
        obtain ⟨ds, written⟩ :=
          deliverEffects_eq before (r.gate f)
            (r.observeServer parseDuration f).2.suppress ⟨r.received, f⟩
        rw [written]
        generalize
          before.deliver (r.gate f)
            (r.observeServer parseDuration f).2.suppress ⟨r.received, f⟩ = last
        by_cases filled :
            last.exit.isNone = true ∧ f.backendTag = .dataRow ∧
              last.truncate = some 0
        · rw [if_pos filled, if_pos filled]
          exact ⟨ds, last.cutEffects, rfl, Or.inr ⟨rfl, last, rfl⟩⟩
        · rw [if_neg filled]
          exact ⟨ds, [], rfl, Or.inl rfl⟩

end

end Relay

end Pgfault
