import Pgfault.Endings

namespace Pgfault

open ConnectionState

/-!
# Delays only delay

A relay whose scenarios do nothing but delay is compared with a relay that has no
scenarios, on the same traffic.  The two observe the same events and send the
same frames.  What differs is the fault records, and that a scenario which waits
for a completion makes the gate hold frames back until the cycle is ready
(`delays_only_delay`).
-/

/-- A scenario that neither withholds nor severs anything. -/
def Scenario.DelaysOnly (s : Scenario) : Prop :=
  s.action.suppress.any Suppress.current = false ∧
    s.action.disconnect = none ∧ s.action.truncateResult = none

instance (s : Scenario) : Decidable s.DelaysOnly :=
  inferInstanceAs (Decidable (_ ∧ _ ∧ _))

/-- The only action left is the delay. -/
theorem Applied.acts_of_delays
    (a : Applied)
    {fired : List Scenario}
    (delays : ∀ s ∈ fired, s.DelaysOnly) :
    a.acts fired = a := by
  induction fired with
  | nil =>
      rfl
  | cons s rest inductionHypothesis =>
      obtain ⟨first, later⟩ := List.forall_mem_cons.mp delays
      have nothing : a.act s.action = a := by
        simp [act, first.1, first.2.1, first.2.2]
      rw [acts_cons, nothing]
      exact inductionHypothesis later

/-- What fires is a scenario of a matcher. -/
theorem forall_firings
    {given : Scenario → Prop}
    {matchers : List Matcher}
    (all : ∀ m ∈ matchers, given m.scenario)
    (es : List Event) :
    ∀ s ∈ firings matchers es, given s := by
  induction es generalizing matchers with
  | nil =>
      intro s member
      simp [firings] at member
  | cons e rest inductionHypothesis =>
      intro s member
      rcases List.mem_append.mp member with now | later
      · obtain ⟨m, listed, rfl⟩ := List.mem_map.mp now
        exact all m (List.mem_filter.mp listed).1
      · exact inductionHypothesis (forall_allBehind all [e]) s later

/-! ## Records without faults -/

namespace Trace

/-- The records that report no fault. -/
def plain (records : List Record) : List Record :=
  records.filter fun r => !r.isFault

@[simp] theorem plain_append (records later : List Record) :
    plain (records ++ later) = plain records ++ plain later :=
  List.filter_append ..

/-- Without the faults a relay reports its events. -/
theorem plain_reports (matchers : List Matcher) (es : List Event) :
    plain (reports matchers es) = es.map .semantic := by
  induction es generalizing matchers with
  | nil =>
      rfl
  | cons e rest inductionHypothesis =>
      have silent (fired : List Scenario) :
          plain (fired.map (Record.fault e)) = [] := by
        simp [plain, List.filter_eq_nil_iff, Record.isFault]
      have first (records : List Record) :
          plain (.semantic e :: records) = .semantic e :: plain records := rfl
      rw [reports, List.cons_append, first, plain_append, silent,
        List.nil_append, inductionHypothesis, List.map_cons]

/-- Without scenarios there are no faults to report. -/
theorem reports_unmatched (es : List Event) :
    reports [] es = es.map .semantic := by
  induction es with
  | nil =>
      rfl
  | cons e rest inductionHypothesis =>
      exact congrArg (.semantic e :: ·) inductionHypothesis

end Trace

namespace Relay

/-! ## Two relays -/

/-- A relay whose scenarios delay, and one without scenarios. -/
structure Mirrors
    (parseDuration : String → Except String Nat)
    (r q : Relay) : Prop where
  state : r.state = q.state
  received : r.received = q.received
  toServer : r.toServer = q.toServer
  toClient : r.toClient ++ r.held = q.toClient
  unheld : q.held = []
  truncate : r.truncate = none ∧ q.truncate = none
  sockets : r.sockets = q.sockets
  trace : Trace.plain r.trace = q.trace
  exit : r.exit = q.exit
  punctual : ∀ m ∈ r.matchers, Punctual parseDuration m.scenario
  delays : ∀ m ∈ r.matchers, m.scenario.DelaysOnly
  unmatched : q.matchers = []

section

variable {parseDuration : String → Except String Nat}

/-- Both relays show the same events and decide nothing. -/
theorem Mirrors.apply
    {r q : Relay}
    (mirrors : Mirrors parseDuration r q)
    (events : List Event) :
    Mirrors parseDuration (r.apply parseDuration events).1
        (q.apply parseDuration events).1 ∧
      (r.apply parseDuration events).1.exit = none ∧
      (r.apply parseDuration events).2 = {} ∧
      (q.apply parseDuration events).2 = {} := by
  have none_ : ∀ m ∈ q.matchers, Punctual parseDuration m.scenario := by
    rw [mirrors.unmatched]
    exact fun m member => absurd member List.not_mem_nil
  have idle : ∀ m ∈ q.matchers, m.scenario.DelaysOnly := by
    rw [mirrors.unmatched]
    exact fun m member => absurd member List.not_mem_nil
  rw [apply_eq mirrors.punctual, apply_eq none_,
    r.borrow.acts_of_delays (forall_firings mirrors.delays events),
    q.borrow.acts_of_delays (forall_firings idle events)]
  refine ⟨?_, rfl, rfl, rfl⟩
  have unmatched : allBehind q.matchers events = [] := by
    rw [mirrors.unmatched]
    rfl
  have trace :
      Trace.plain (r.trace ++ reports r.matchers events) =
        q.trace ++ reports q.matchers events := by
    rw [Trace.plain_append, mirrors.trace, Trace.plain_reports,
      mirrors.unmatched, Trace.reports_unmatched]
  exact
    { mirrors with
      exit := rfl
      trace := trace
      unmatched := unmatched
      punctual := forall_allBehind mirrors.punctual events
      delays := forall_allBehind mirrors.delays events }

/-- Both relays report a forwarded statement. -/
theorem Mirrors.forward
    {r q : Relay}
    (mirrors : Mirrors parseDuration r q)
    (f : Frame) :
    Mirrors parseDuration (r.forward parseDuration f)
      (q.forward parseDuration f) := by
  have toServer : r.toServer ++ [f] = q.toServer ++ [f] := by
    rw [mirrors.toServer]
  have raised : r.state.forwarded = q.state.forwarded := by
    rw [mirrors.state]
  have sent :
      Mirrors parseDuration
        { r with
          toServer := r.toServer ++ [f]
          state := r.state.forwarded.2 }
        { q with
          toServer := q.toServer ++ [f]
          state := q.state.forwarded.2 } :=
    { mirrors with
      toServer := toServer
      state := congrArg Prod.snd raised }
  obtain ⟨shown, -, stays, staysToo⟩ := sent.apply [r.state.forwarded.1]
  unfold Relay.forward
  simp only
  split
  · rw [← raised] at shown staysToo ⊢
    rw [stays, staysToo]
    simp only [Bool.false_eq_true, and_false, if_false]
    exact shown
  · exact { mirrors with toServer := toServer }

theorem Mirrors.clientFrame
    (sha256 : Bytes → String)
    {r q : Relay}
    (mirrors : Mirrors parseDuration r q)
    (f : Frame) :
    Mirrors parseDuration (r.clientFrame sha256 parseDuration f)
      (q.clientFrame sha256 parseDuration f) := by
  have observed :
      Mirrors parseDuration
        { r with state := (r.state.frontend sha256 f).2 }
        { q with state := (r.state.frontend sha256 f).2 } :=
    { mirrors with state := rfl }
  obtain ⟨shown, inside, stays, staysToo⟩ :=
    observed.apply (r.state.frontend sha256 f).1
  unfold Relay.clientFrame
  simp only [← mirrors.state]
  generalize
    Relay.apply parseDuration
      { r with state := (r.state.frontend sha256 f).2 }
      (r.state.frontend sha256 f).1 = one at shown inside stays ⊢
  generalize
    Relay.apply parseDuration
      { q with state := (r.state.frontend sha256 f).2 }
      (r.state.frontend sha256 f).1 = other at shown staysToo ⊢
  have insideToo : other.1.exit = none := shown.exit.symm.trans inside
  have forwarded := shown.forward f
  simp only [inside, insideToo, stays, staysToo, Option.isSome_none,
    Bool.false_eq_true, if_false]
  generalize one.1.forward parseDuration f = last at forwarded ⊢
  generalize other.1.forward parseDuration f = lastToo at forwarded ⊢
  rw [forwarded.exit]
  split
  · exact { forwarded with exit := rfl }
  · exact forwarded

/-- The relay without scenarios writes at once what the other one may hold. -/
theorem Mirrors.deliver
    {r q : Relay}
    (mirrors : Mirrors parseDuration r q)
    (gate : Bool)
    (d : Delivery)
    (within : (r.deliver gate false d).exit ≠ some gateFull) :
    Mirrors parseDuration (r.deliver gate false d)
      (q.deliver false false d) := by
  have written :
      r.toClient ++ r.held ++ [d] = q.toClient ++ [d] := by
    rw [mirrors.toClient]
  unfold Relay.deliver at within ⊢
  split
  · exact
      { mirrors with
        toClient := by simp [settle, mirrors.unheld, mirrors.toClient]
        unheld := rfl
        truncate := ⟨rfl, rfl⟩ }
  · rename_i other
    simp only [other, if_false, Bool.false_eq_true, mirrors.unheld, ne_eq,
      not_true_eq_false, or_self] at within ⊢
    split
    · rename_i holds
      rw [if_pos holds] at within
      unfold hold at within ⊢
      split
      · rename_i full
        rw [if_pos full] at within
        exact absurd rfl within
      · exact
          { mirrors with
            toClient := by
              rw [← written]
              exact (List.append_assoc _ _ _).symm
            unheld := rfl }
    · rename_i passes
      simp only [not_or, Bool.not_eq_true, not_not] at passes
      exact
        { mirrors with
          toClient := by
            rw [← written, passes.2, List.append_nil, List.append_nil]
          unheld := rfl }

theorem Mirrors.serverFrame
    {r q : Relay}
    (mirrors : Mirrors parseDuration r q)
    (f : Frame)
    (within : (r.serverFrame parseDuration f).exit ≠ some gateFull) :
    Mirrors parseDuration (r.serverFrame parseDuration f)
      (q.serverFrame parseDuration f) := by
  have observed :
      Mirrors parseDuration
        { r with
          state := (r.state.backend f).2
          received := r.received + 1 }
        { q with
          state := (r.state.backend f).2
          received := r.received + 1 } :=
    { mirrors with
      state := rfl
      received := rfl }
  obtain ⟨shown, inside, stays, staysToo⟩ :=
    observed.apply (r.state.backend f).1
  have ungated : q.gate f = false := by
    simp [Relay.gate, mirrors.unmatched]
  unfold Relay.serverFrame observeServer at within ⊢
  simp only [← mirrors.state, ← mirrors.received, ungated] at within ⊢
  generalize
    Relay.apply parseDuration
      { r with
        state := (r.state.backend f).2
        received := r.received + 1 }
      (r.state.backend f).1 = one at shown inside stays within ⊢
  generalize
    Relay.apply parseDuration
      { q with
        state := (r.state.backend f).2
        received := r.received + 1 }
      (r.state.backend f).1 = other at shown staysToo ⊢
  have insideToo : other.1.exit = none := shown.exit.symm.trans inside
  -- Neither relay counts rows down.
  have uncounted (t : Relay) (idle : t.truncate = none) :
      (if f.backendTag = .dataRow then
        { t with truncate := t.truncate.map (· - 1) }
      else t) = t := by
    split
    · cases t
      cases idle
      rfl
    · rfl
  rw [uncounted one.1 shown.truncate.1] at within ⊢
  rw [uncounted other.1 shown.truncate.2]
  simp only [inside, insideToo, stays, staysToo, shown.truncate.1,
    shown.truncate.2, Option.isSome_none, Bool.false_eq_true, reduceCtorEq,
    and_false, if_false] at within ⊢
  have delivered :=
    shown.deliver (r.gate f) ⟨r.received, f⟩ (by
      intro full
      rw [if_neg (by simp [full])] at within
      exact within full)
  generalize one.1.deliver (r.gate f) false ⟨r.received, f⟩ = last
    at delivered ⊢
  generalize other.1.deliver false false ⟨r.received, f⟩ = lastToo
    at delivered ⊢
  rw [if_neg (by simp [delivered.truncate.1]),
    if_neg (by simp [delivered.truncate.2])]
  exact delivered

theorem Mirrors.step
    (sha256 : Bytes → String)
    {r q : Relay}
    (mirrors : Mirrors parseDuration r q)
    (input : Input)
    (within : (r.step sha256 parseDuration input).exit ≠ some gateFull) :
    Mirrors parseDuration (r.step sha256 parseDuration input)
      (q.step sha256 parseDuration input) := by
  unfold Relay.step at within ⊢
  rw [← mirrors.exit]
  split
  · exact mirrors
  · rename_i inside
    rw [if_neg inside] at within
    cases input with
    | client read =>
        cases read with
        | frame f =>
            exact mirrors.clientFrame sha256 f
        | eof =>
            exact
              { mirrors with
                exit := rfl
                sockets := congrArg (· ++ _) mirrors.sockets }
        | error message =>
            exact { mirrors with exit := rfl }
    | server read =>
        cases read with
        | frame f =>
            exact mirrors.serverFrame f within
        | eof =>
            exact
              { mirrors with
                exit := rfl
                sockets := congrArg (· ++ _) mirrors.sockets }
        | error message =>
            exact { mirrors with exit := rfl }

end

section

variable (sha256 : Bytes → String) (parseDuration : String → Except String Nat)

/--
Delays only delay.  Unless the gate is full, a relay whose scenarios neither
withhold nor sever anything goes through any traffic as a relay without scenarios
does: it observes the same, sends the server the same frames, the client the same
frames up to those the gate still holds, treats the sockets in the same way and
ends in the same way; and its trace without the faults is the same.
-/
theorem delays_only_delay
    (id : Nat)
    (startup : StartupMetadata)
    (scenarios : List Scenario)
    (valid : ∀ s ∈ scenarios, s.validate parseDuration = .ok ())
    (delays : ∀ s ∈ scenarios, s.DelaysOnly)
    (inputs : List Input)
    (within :
      ((start id startup scenarios).run sha256 parseDuration inputs).exit ≠
        some gateFull) :
    let r := (start id startup scenarios).run sha256 parseDuration inputs
    let q := (start id startup []).run sha256 parseDuration inputs
    r.state = q.state ∧
      r.toServer = q.toServer ∧
      r.toClient ++ r.held = q.toClient ∧
      r.sockets = q.sockets ∧
      r.exit = q.exit ∧
      Trace.plain r.trace = q.trace := by
  intro r q
  have mirrors : Mirrors parseDuration r q := by
    induction inputs using List.reverseRecOn with
    | nil =>
        refine ⟨rfl, rfl, rfl, rfl, rfl, ⟨rfl, rfl⟩, rfl, rfl, rfl, ?_, ?_,
          rfl⟩
        · intro m member
          obtain ⟨s, listed, rfl⟩ := List.mem_map.mp member
          exact (Scenario.validate_iff.mp (valid s listed)).punctual
        · intro m member
          obtain ⟨s, listed, rfl⟩ := List.mem_map.mp member
          exact delays s listed
    | append_singleton earlier input inductionHypothesis =>
        have stepped :
            r =
              ((start id startup scenarios).run sha256 parseDuration
                earlier).step sha256 parseDuration input :=
          run_concat sha256 parseDuration _ earlier input
        have steppedToo :
            q =
              ((start id startup []).run sha256 parseDuration
                earlier).step sha256 parseDuration input :=
          run_concat sha256 parseDuration _ earlier input
        have withinBefore :
            ((start id startup scenarios).run sha256 parseDuration
              earlier).exit ≠ some gateFull := by
          intro full
          have stays :
              ((start id startup scenarios).run sha256 parseDuration
                  earlier).step sha256 parseDuration input =
                (start id startup scenarios).run sha256 parseDuration
                  earlier :=
            if_pos (by rw [full]; rfl)
          rw [run_concat, stays] at within
          exact within full
        rw [stepped, steppedToo]
        refine (inductionHypothesis withinBefore).step sha256 input ?_
        rw [← stepped]
        exact within
  exact ⟨mirrors.state, mirrors.toServer, mirrors.toClient, mirrors.sockets,
    mirrors.exit, mirrors.trace⟩

/-- Wait before the first commit is confirmed. -/
def slowCommit : Scenario where
  version := 1
  name := "slow-commit"
  when := { event := "transaction.commit.completed" }
  action := { delay := some ⟨.downstream, "5s"⟩ }

/-- A commit the server confirms. -/
def confirmedCommit : List Input :=
  [.server (.frame (message 'Z' (ascii "T"))),
    .client (.frame (message 'Q' (ascii "COMMIT" ++ [0]))),
    .server (.frame (message 'C' (ascii "COMMIT" ++ [0]))),
    .server (.frame (message 'Z' (ascii "I")))]

theorem delays_only_delay_slowCommit :
    let r :=
      (start 1 default [slowCommit]).run sampleSha256 (fun _ => .ok 0)
        confirmedCommit
    let q :=
      (start 1 default []).run sampleSha256 (fun _ => .ok 0) confirmedCommit
    r.trace.any Record.isFault = true ∧ r.toClient ++ r.held = q.toClient ∧
      Trace.plain r.trace = q.trace := by
  intro r q
  have recorded : r.trace.any Record.isFault = true := by
    decide +kernel
  obtain ⟨-, -, toClient, -, -, trace⟩ :=
    delays_only_delay sampleSha256 (fun _ => .ok 0) 1 default [slowCommit]
      (by simp only [List.mem_singleton, forall_eq]; rfl)
      (by simp only [List.mem_singleton, forall_eq]; decide)
      confirmedCommit (by decide +kernel)
  exact ⟨recorded, toClient, trace⟩

end

end Relay

end Pgfault
