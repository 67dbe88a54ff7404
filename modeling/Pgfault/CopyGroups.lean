import Mathlib.Data.List.Count
import Pgfault.PipelineAlignment

namespace Pgfault

open Queue ConnectionState

/-!
# COPY in the extended protocol

A client that runs `COPY FROM STDIN` through the extended protocol sends `Sync`
twice: once behind `Execute`, and once behind the data.  The server reads the
first one in copy-in mode and discards it, so the group gets one `ReadyForQuery`.

`CopySession` is both ends of such a session.  The server takes the client's
frames up one by one: it discards a frame, or sends a reply.  Frames carry the
ordinal of their group.
-/

/-- What a client sends in copy-in mode. -/
inductive CopyTag where
  | data
  | done
  | fail
  deriving Repr, DecidableEq

namespace Frame

/-- The copy message a client frame carries. -/
def copyTag (f : Frame) : Option CopyTag :=
  match Char.ofNat f.tag.toNat with
  | 'd' => some .data
  | 'c' => some .done
  | 'f' => some .fail
  | _ => none

/-- Whether a server frame is a `CopyInResponse`. -/
def isCopyIn (f : Frame) : Bool :=
  Char.ofNat f.tag.toNat = 'G'

end Frame

/-- A client frame the server has not taken up yet, with its group. -/
structure Item where
  frame : Frame
  group : Nat

/-- What the server does with the frames it reads. -/
inductive ServerMode where
  | ready
  /-- In copy-in mode. -/
  | copying
  /-- Behind an error, up to the next `Sync`. -/
  | skipping
  deriving Repr, DecidableEq

/-- How far a client is in a `COPY` the server has accepted. -/
inductive CopyPhase where
  | none
  /-- The first `Sync` is still to be sent. -/
  | entered
  /-- The data is being sent. -/
  | sending
  /-- The second `Sync` is still to be sent. -/
  | closing
  deriving Repr, DecidableEq

/-- Both ends of a session with COPY groups. -/
structure CopySession where
  waiting : List Item := []
  mode : ServerMode := .ready
  phase : CopyPhase := .none
  /-- The group the next client frame belongs to. -/
  group : Nat := 1
  /-- Whether the client has begun a cycle it has not sealed. -/
  opened : Bool := false
  /-- Groups of the `Query` and `Sync` frames the server is done with. -/
  processed : List Nat := []
  /-- Among them, the groups of the discarded `Sync` frames. -/
  discarded : List Nat := []

namespace CopySession

/-- Whether a reply ends the answer to an extended frame. -/
def finishes (request : FrontendTag) (reply : BackendTag) : Bool :=
  match request, reply with
  | .parse, .parseComplete => true
  | .bind, .bindComplete => true
  | .close, .closeComplete => true
  | .describe, .rowDescription => true
  | .describe, .noData => true
  | .execute, .commandComplete => true
  | .execute, .portalSuspended => true
  | .execute, .emptyQueryResponse => true
  | _, _ => false

/-- Whether a reply makes the server done with a frame. -/
def concludes (mode : ServerMode) (x : Item) (f : Frame) : Bool :=
  match mode with
  | .ready => finishes x.frame.frontendTag f.backendTag
  | .copying =>
      x.frame.copyTag = some .done ∧ f.backendTag = .commandComplete
  | .skipping => false

/-- Whether a completed command answers a frame. -/
def completes (mode : ServerMode) (x : Item) : Bool :=
  match mode with
  | .ready => x.frame.frontendTag = .execute ∨ x.frame.frontendTag = .query
  | .copying => x.frame.copyTag = some .done
  | .skipping => false

/-- Whether a frame may be discarded. -/
def discards (mode : ServerMode) (x : Item) : Bool :=
  match mode with
  | .ready => x.frame.frontendTag = .flush ∨ x.frame.copyTag.isSome
  | .copying =>
      x.frame.frontendTag = .sync ∨ x.frame.frontendTag = .flush ∨
        x.frame.copyTag = some .data
  | .skipping =>
      x.frame.frontendTag ≠ .sync ∧ x.frame.frontendTag ≠ .query

/-- Which client frames may come next. -/
def admits (σ : CopySession) (f : Frame) : Prop :=
  match σ.phase with
  | .none =>
      f.frontendTag = .query ∧ σ.opened = false ∨
        Pipeline.isExtended f.frontendTag = true ∨ f.frontendTag = .sync
  | .entered => f.frontendTag = .sync
  | .sending =>
      f.copyTag.isSome = true ∨
        f.frontendTag = .sync ∧ σ.mode ≠ .copying
  | .closing => f.frontendTag = .sync

/-- Whether a `CopyInResponse` answers what the client has sent. -/
def entersCopy (σ : CopySession) : Bool :=
  σ.mode == .ready && σ.phase == .none &&
    match σ.waiting with
    | [x] => x.frame.frontendTag == .execute
    | [x, y] =>
        x.frame.frontendTag == .execute && y.frame.frontendTag == .sync
    | _ => false

/--
Which events may come next.  A `Query` stands alone, a `COPY` client waits for
the `CopyInResponse` before it sends data, a `ReadyForQuery` answers a `Query` or
a `Sync` outside copy-in mode, and a completed command answers a statement or the
end of the data.  Other replies may come at any time, so a real server does less
than this.
-/
def permits (σ : CopySession) : Move → Prop
  | .forwarded => True
  | .client f => σ.admits f
  | .discard => σ.waiting.head?.any (discards σ.mode) = true
  | .server f =>
      (f.isCopyIn = true → σ.entersCopy = true) ∧
        (f.backendTag = .readyForQuery →
          (readyStatus f).isSome = true ∧ σ.mode ≠ .copying ∧
            σ.waiting.head?.any (fun x => x.frame.terminates) = true) ∧
        (f.backendTag = .commandComplete →
          σ.waiting.head?.any (completes σ.mode) = true)

/-- The client sends a frame. -/
def send (σ : CopySession) (f : Frame) : CopySession where
  waiting := σ.waiting ++ [⟨f, σ.group⟩]
  mode := σ.mode
  phase :=
    match σ.phase with
    | .none => .none
    | .entered => .sending
    | .sending =>
        if f.frontendTag = .sync then .none
        else if f.copyTag = some .data then .sending
        else .closing
    | .closing => .none
  group :=
    -- The first `Sync` of a `COPY` the server has accepted ends no group.
    if f.terminates ∧ σ.phase ≠ .entered then σ.group + 1 else σ.group
  opened :=
    if f.terminates then false else σ.opened || (touch f).isSome
  processed := σ.processed
  discarded := σ.discarded

/-- The server discards a frame. -/
def drop (σ : CopySession) : CopySession :=
  match σ.waiting with
  | [] => σ
  | x :: rest =>
      if x.frame.terminates then
        { σ with
          waiting := rest
          processed := σ.processed ++ [x.group]
          discarded := σ.discarded ++ [x.group] }
      else
        { σ with waiting := rest }

/-- The server enters copy-in mode; what comes next belongs to this group. -/
def enter (σ : CopySession) : CopySession :=
  match σ.waiting with
  | [] => σ
  | x :: rest =>
      { σ with
        waiting := rest
        mode := .copying
        phase := if rest.isEmpty then .entered else .sending
        group := x.group }

/-- `ReadyForQuery`: the server is done with a `Query` or a `Sync`. -/
def settle (σ : CopySession) : CopySession :=
  match σ.waiting with
  | [] => σ
  | x :: rest =>
      { σ with
        waiting := rest
        mode := .ready
        processed := σ.processed ++ [x.group] }

/-- `ErrorResponse`: an extended frame or the copied data is at fault. -/
def fail (σ : CopySession) : CopySession :=
  match σ.waiting with
  | [] => { σ with mode := if σ.mode = .copying then .skipping else σ.mode }
  | x :: rest =>
      if x.frame.terminates then
        { σ with mode := if σ.mode = .copying then .skipping else σ.mode }
      else
        { σ with waiting := rest, mode := .skipping }

/-- Any other reply: the server may be done with the frame it answers. -/
def answer (σ : CopySession) (f : Frame) : CopySession :=
  match σ.waiting with
  | [] => σ
  | x :: rest =>
      if concludes σ.mode x f then
        { σ with waiting := rest, mode := .ready }
      else
        σ

/-- The session behind one event. -/
def step (σ : CopySession) : Move → CopySession
  | .forwarded => σ
  | .client f => σ.send f
  | .discard => σ.drop
  | .server f =>
      if f.isCopyIn then
        σ.enter
      else
        match f.backendTag with
        | .readyForQuery => σ.settle
        | .errorResponse => σ.fail
        | _ => σ.answer f

/-- The session behind some events. -/
def run (σ : CopySession) (moves : List Move) : CopySession :=
  Machine.run step σ moves

/-- The calls of the observer among the events. -/
def calls (moves : List Move) : List Call :=
  moves.filterMap fun
    | .client f => some (.frontend f)
    | .forwarded => some .forwarded
    | .server f => some (.backend f)
    | .discard => none

/-- Groups of the waiting `Query` and `Sync` frames. -/
def terms (waiting : List Item) : List Nat :=
  (waiting.filter fun x => x.frame.terminates).map Item.group

/-- Which group each cycle of the session belongs to, in order. -/
def owners (σ : CopySession) : List Nat :=
  σ.processed ++ terms σ.waiting ++ if σ.opened then [σ.group] else []

/-- The `ReadyForQuery` frames sent so far. -/
def answered (σ : CopySession) : Nat :=
  σ.processed.length - σ.discarded.length

/-- The client is between groups and the server owes it nothing. -/
def quiet (σ : CopySession) : Prop :=
  σ.waiting = [] ∧ σ.phase = .none ∧ σ.opened = false

/-- The group a reply answers. -/
def answering (σ : CopySession) : Option Nat :=
  σ.waiting.head?.map Item.group

/-- No `Sync` of an earlier group has been discarded. -/
def undisturbed (σ : CopySession) : Prop :=
  ∀ g ∈ σ.answering, ∀ d ∈ σ.discarded, g ≤ d

/-- An event names a cycle of the group a reply answers. -/
def Attributed (σ : CopySession) (e : Event) : Prop :=
  0 < e.queryCycle ∧ σ.owners[e.queryCycle - 1]? = σ.answering

/-! ## The frames of a session -/

/-- A copy message is no message of the queue. -/
theorem frontendTag_of_copyTag
    {f : Frame}
    (copies : f.copyTag.isSome = true) :
    f.frontendTag = .other := by
  unfold Frame.copyTag at copies
  unfold Frame.frontendTag FrontendTag.ofByte
  generalize Char.ofNat f.tag.toNat = letter at *
  split at copies
  · rfl
  · rfl
  · rfl
  · cases copies

/-- A `CopyInResponse` is no message the observer knows. -/
theorem backendTag_of_isCopyIn
    {f : Frame}
    (enters : f.isCopyIn = true) :
    f.backendTag = .other := by
  unfold Frame.isCopyIn at enters
  unfold Frame.backendTag BackendTag.ofByte
  rw [of_decide_eq_true enters]
  decide

/-! ## Waiting frames and their groups -/

/-- The group of the next waiting `Query` or `Sync`, or else `last`. -/
def segment (last : Nat) : List Item → Nat
  | [] => last
  | x :: rest => if x.frame.terminates then x.group else segment last rest

/-- Every waiting frame is of the group that the next terminator ends. -/
def Chained (last : Nat) : List Item → Prop
  | [] => True
  | x :: rest => x.group = segment last (x :: rest) ∧ Chained last rest

/-- A frame behind every terminator that works on a cycle has left it open. -/
def Loose (opened : Bool) : List Item → Prop
  | [] => True
  | x :: rest =>
      ((touch x.frame).isSome = true → terms (x :: rest) = [] →
          opened = true) ∧
        Loose opened rest

theorem terms_cons (x : Item) (rest : List Item) :
    terms (x :: rest) =
      (if x.frame.terminates then [x.group] else []) ++ terms rest := by
  unfold terms
  rw [List.filter_cons]
  split <;> rfl

theorem terms_concat (waiting : List Item) (y : Item) :
    terms (waiting ++ [y]) =
      terms waiting ++ if y.frame.terminates then [y.group] else [] := by
  unfold terms
  rw [List.filter_append, List.map_append]
  cases terminates : y.frame.terminates <;> simp [terminates]

theorem segment_concat (last : Nat) (waiting : List Item) (y : Item) :
    segment last (waiting ++ [y]) = segment (segment last [y]) waiting := by
  induction waiting with
  | nil =>
      rfl
  | cons x rest inductionHypothesis =>
      simp only [List.cons_append, segment, inductionHypothesis]

theorem Chained.concat
    {last : Nat}
    {waiting : List Item}
    {y : Item}
    (chained : Chained (segment last [y]) waiting)
    (own : y.group = segment last [y]) :
    Chained last (waiting ++ [y]) := by
  induction waiting with
  | nil =>
      exact ⟨own, trivial⟩
  | cons x rest inductionHypothesis =>
      have shifted := segment_concat last (x :: rest) y
      exact ⟨chained.1.trans shifted.symm, inductionHypothesis chained.2⟩

theorem Loose.concat
    {opened next : Bool}
    {waiting : List Item}
    {y : Item}
    (loose : Loose opened waiting)
    (stays : y.frame.terminates = false → opened = true → next = true)
    (own :
      y.frame.terminates = false → (touch y.frame).isSome = true →
        next = true) :
    Loose next (waiting ++ [y]) := by
  induction waiting with
  | nil =>
      refine ⟨?_, trivial⟩
      intro touches none
      cases terminates : y.frame.terminates with
      | true =>
          rw [terms_cons, terminates] at none
          cases none
      | false =>
          exact own terminates touches
  | cons x rest inductionHypothesis =>
      refine ⟨?_, inductionHypothesis loose.2⟩
      intro touches none
      have joined := (terms_concat (x :: rest) y).symm.trans none
      obtain ⟨noneBefore, noneNow⟩ := List.append_eq_nil_iff.mp joined
      cases terminates : y.frame.terminates with
      | true =>
          simp [terminates] at noneNow
      | false =>
          exact stays terminates (loose.1 touches noneBefore)

/-- The next terminator is the first one that waits. -/
theorem segment_eq (last : Nat) (waiting : List Item) :
    segment last waiting = (terms waiting).head?.getD last := by
  induction waiting with
  | nil =>
      rfl
  | cons x rest inductionHypothesis =>
      rw [terms_cons, segment]
      cases x.frame.terminates with
      | true =>
          rfl
      | false =>
          exact inductionHypothesis

/-! ## The session by itself -/

/-- A server in copy-in mode that has discarded nothing waits for a `Sync`. -/
def AwaitsSync (σ : CopySession) : Prop :=
  σ.waiting = [] ∧ σ.phase = .entered ∨
    ∃ x rest, σ.waiting = x :: rest ∧ x.frame.frontendTag = .sync

/-- What holds of the two ends in every session. -/
structure Sound (σ : CopySession) : Prop where
  discarded : σ.discarded.Sublist σ.processed
  ordered :
    (σ.processed ++ (σ.waiting.map Item.group ++ [σ.group])).Pairwise (· ≤ ·)
  chained : Chained σ.group σ.waiting
  loose : Loose σ.opened σ.waiting
  copies : σ.mode = .copying → σ.discarded = [] → σ.AwaitsSync

theorem sound_initial : Sound {} :=
  ⟨List.Sublist.refl _, by simp, trivial, trivial, nofun⟩

/-- Only `Query` and `Sync` end a group, and `Query` only between groups. -/
theorem sync_of_admits
    {σ : CopySession}
    {f : Frame}
    (admitted : σ.admits f)
    (terminates : f.terminates = true) :
    f.frontendTag = .sync ∨ f.frontendTag = .query ∧ σ.opened = false := by
  have silent (copies : f.copyTag.isSome = true) : False := by
    have other := frontendTag_of_copyTag copies
    simp [Frame.terminates, other] at terminates
  unfold admits at admitted
  split at admitted
  · rcases admitted with query | extended | sync
    · exact Or.inr query
    · rcases terminates_iff.mp terminates with query | sync
      · simp [Pipeline.isExtended, query] at extended
      · exact Or.inl sync
    · exact Or.inl sync
  · exact Or.inl admitted
  · rcases admitted with copies | ⟨sync, -⟩
    · exact (silent copies).elim
    · exact Or.inl sync
  · exact Or.inl admitted

/-- The group of a frame the client sends is the one it is in. -/
theorem group_le_send (σ : CopySession) (f : Frame) :
    σ.group ≤ (σ.send f).group := by
  simp only [send]
  split
  · exact Nat.le_succ _
  · exact Nat.le_refl _

theorem group_send_of_not_terminates
    (σ : CopySession)
    {f : Frame}
    (goesOn : f.terminates = false) :
    (σ.send f).group = σ.group := by
  simp [send, goesOn]

theorem Sound.send
    {σ : CopySession}
    (sound : Sound σ)
    {f : Frame}
    (admitted : σ.admits f) :
    Sound (σ.send f) where
  discarded := sound.discarded
  ordered := by
    have below := group_le_send σ f
    have ordered := sound.ordered
    simp only [CopySession.send, List.map_append, List.map_cons, List.map_nil]
    rw [← List.append_assoc σ.processed, List.pairwise_append]
    refine ⟨ordered, List.pairwise_singleton _ _, ?_⟩
    intro earlier member last isLast
    rw [List.mem_singleton] at isLast
    subst last
    refine Nat.le_trans ?_ below
    rw [← List.append_assoc, List.pairwise_append] at ordered
    rw [← List.append_assoc, List.mem_append] at member
    rcases member with inside | isGroup
    · exact ordered.2.2 earlier inside σ.group (List.mem_singleton.mpr rfl)
    · exact Nat.le_of_eq (List.mem_singleton.mp isGroup)
  chained := by
    have own : segment (σ.send f).group [⟨f, σ.group⟩] = σ.group := by
      cases terminates : f.terminates with
      | true =>
          simp [segment, terminates]
      | false =>
          simp [segment, terminates, group_send_of_not_terminates]
    refine Chained.concat ?_ own.symm
    rw [own]
    exact sound.chained
  loose := by
    refine sound.loose.concat ?_ ?_
    · intro goesOn opened
      simp_all [CopySession.send]
    · intro goesOn touches
      simp_all [CopySession.send]
  copies := by
    intro copying none
    refine Or.inr ?_
    rcases sound.copies copying none with ⟨empty, entered⟩ | ⟨x, rest, shape, sync⟩
    · simp only [admits, entered] at admitted
      exact ⟨⟨f, σ.group⟩, [], by simp [CopySession.send, empty], admitted⟩
    · exact ⟨x, rest ++ [⟨f, σ.group⟩], by simp [CopySession.send, shape], sync⟩

/-- The server takes up a frame that asks for a `ReadyForQuery`. -/
theorem Sound.ordered_of_processed
    {σ : CopySession}
    (sound : Sound σ)
    {x : Item}
    {rest : List Item}
    (shape : σ.waiting = x :: rest) :
    (σ.processed ++ [x.group] ++ (rest.map Item.group ++ [σ.group])).Pairwise
      (· ≤ ·) := by
  have ordered := sound.ordered
  rw [shape] at ordered
  simpa using ordered

/-- The server is done with a frame that does not. -/
theorem Sound.ordered_of_dropped
    {σ : CopySession}
    (sound : Sound σ)
    {x : Item}
    {rest : List Item}
    (shape : σ.waiting = x :: rest) :
    (σ.processed ++ (rest.map Item.group ++ [σ.group])).Pairwise (· ≤ ·) := by
  have ordered := sound.ordered
  rw [shape, List.map_cons, List.cons_append] at ordered
  exact ordered.sublist
    (List.Sublist.append_left (List.sublist_cons_self _ _) _)

/-- The frames behind the one the server takes up. -/
theorem Sound.rest
    {σ : CopySession}
    (sound : Sound σ)
    {x : Item}
    {rest : List Item}
    (shape : σ.waiting = x :: rest) :
    Chained σ.group rest ∧ Loose σ.opened rest := by
  have chained := sound.chained
  have loose := sound.loose
  rw [shape] at chained loose
  exact ⟨chained.2, loose.2⟩

theorem Sound.drop
    {σ : CopySession}
    (sound : Sound σ)
    (permitted : σ.permits .discard) :
    Sound σ.drop := by
  unfold CopySession.drop
  split
  · exact sound
  · rename_i x rest shape
    obtain ⟨chained, loose⟩ := sound.rest shape
    have taken : discards σ.mode x = true := by
      simpa [permits, shape] using permitted
    split
    · refine ⟨?_, sound.ordered_of_processed shape, chained, loose, ?_⟩
      · exact sound.discarded.append (List.Sublist.refl _)
      · intro _ none
        simp at none
    · rename_i goesOn
      refine ⟨sound.discarded, sound.ordered_of_dropped shape, chained, loose,
        ?_⟩
      intro copying none
      -- What is discarded here is no `Sync`, yet a `Sync` is next.
      rcases sound.copies copying none with ⟨empty, -⟩ | ⟨y, _, head, sync⟩
      · rw [shape] at empty
        cases empty
      · rw [shape] at head
        cases head
        simp [Frame.terminates, sync] at goesOn

/-- What a `CopyInResponse` finds. -/
theorem shape_of_entersCopy
    {σ : CopySession}
    (enters : σ.entersCopy = true) :
    ∃ x, x.frame.frontendTag = .execute ∧
      (σ.waiting = [x] ∨
        ∃ y, σ.waiting = [x, y] ∧ y.frame.frontendTag = .sync) := by
  unfold entersCopy at enters
  rw [Bool.and_eq_true] at enters
  obtain ⟨-, waits⟩ := enters
  split at waits
  · rename_i x shape
    exact ⟨x, by simpa using waits, Or.inl shape⟩
  · rename_i x y shape
    rw [Bool.and_eq_true] at waits
    exact ⟨x, by simpa using waits.1,
      Or.inr ⟨y, shape, by simpa using waits.2⟩⟩
  · cases waits

theorem Sound.enter
    {σ : CopySession}
    (sound : Sound σ)
    (enters : σ.entersCopy = true) :
    Sound σ.enter := by
  obtain ⟨x, execute, alone | ⟨y, behind, sync⟩⟩ := shape_of_entersCopy enters
  · have ordered := sound.ordered_of_processed alone
    have entered :
        σ.enter =
          { σ with
            waiting := [], mode := .copying, phase := .entered
            group := x.group } := by
      simp [CopySession.enter, alone]
    rw [entered]
    refine ⟨sound.discarded, ?_, trivial, trivial, fun _ _ => Or.inl ⟨rfl, rfl⟩⟩
    exact ordered.sublist (by simp)
  · have ordered := sound.ordered_of_processed behind
    have chained := sound.chained
    have entered :
        σ.enter =
          { σ with
            waiting := [y], mode := .copying, phase := .sending
            group := x.group } := by
      simp [CopySession.enter, behind]
    have ends : y.frame.terminates = true := by simp [Frame.terminates, sync]
    have goesOn : x.frame.terminates = false := by
      simp [Frame.terminates, execute]
    have same : x.group = y.group := by
      rw [behind] at chained
      simpa [Chained, segment, goesOn, ends] using chained.1
    rw [entered]
    refine ⟨sound.discarded, ?_, ?_, ?_, fun _ _ => Or.inr ⟨y, [], rfl, sync⟩⟩
    · rw [same]
      rw [same] at ordered
      exact ordered.sublist (by simp)
    · simp [Chained, segment, ends]
    · simp [Loose, terms_cons, ends]

theorem Sound.settle
    {σ : CopySession}
    (sound : Sound σ) :
    Sound σ.settle := by
  unfold CopySession.settle
  split
  · exact sound
  · rename_i x rest shape
    obtain ⟨chained, loose⟩ := sound.rest shape
    refine ⟨?_, sound.ordered_of_processed shape, chained, loose, nofun⟩
    exact sound.discarded.trans (List.sublist_append_left _ _)

/-- The server is done with a frame, and not in copy-in mode. -/
theorem Sound.pop
    {σ : CopySession}
    (sound : Sound σ)
    {x : Item}
    {rest : List Item}
    (shape : σ.waiting = x :: rest)
    {mode : ServerMode}
    (leaves : mode ≠ .copying) :
    Sound { σ with waiting := rest, mode := mode } :=
  ⟨sound.discarded, sound.ordered_of_dropped shape, (sound.rest shape).1,
    (sound.rest shape).2, fun copying => absurd copying leaves⟩

theorem Sound.fail
    {σ : CopySession}
    (sound : Sound σ) :
    Sound σ.fail := by
  have leaves :
      (if σ.mode = .copying then ServerMode.skipping else σ.mode) ≠
        .copying := by
    split
    · exact nofun
    · assumption
  have stays :
      Sound
        { σ with mode := if σ.mode = .copying then .skipping else σ.mode } :=
    ⟨sound.discarded, sound.ordered, sound.chained, sound.loose,
      fun copying => absurd copying leaves⟩
  unfold CopySession.fail
  split
  · exact stays
  · rename_i x rest shape
    split
    · exact stays
    · exact sound.pop shape nofun

theorem Sound.answer
    {σ : CopySession}
    (sound : Sound σ)
    (f : Frame) :
    Sound (σ.answer f) := by
  unfold CopySession.answer
  split
  · exact sound
  · rename_i x rest shape
    split
    · exact sound.pop shape nofun
    · exact sound

/-- One permitted event keeps the session sound. -/
theorem Sound.step
    {σ : CopySession}
    (sound : Sound σ)
    {move : Move}
    (permitted : σ.permits move) :
    Sound (σ.step move) := by
  cases move with
  | client f =>
      exact sound.send permitted
  | forwarded =>
      exact sound
  | discard =>
      exact sound.drop permitted
  | server f =>
      simp only [CopySession.step]
      split
      · rename_i enters
        exact sound.enter (permitted.1 enters)
      · split
        · exact sound.settle
        · exact sound.fail
        · exact sound.answer f

/-! ## The session against the observer -/

/-- Cycles the session has begun. -/
def begun (σ : CopySession) : Nat :=
  σ.owners.length

/-- The queue of the observer against the session. -/
structure Aligned (s : ConnectionState) (σ : CopySession) : Prop where
  numbered : Numbered s
  nextCycle : s.nextCycle = σ.begun
  length : s.cycles.length + σ.answered = σ.begun
  starts : s.startsCycle true = !σ.opened

theorem begun_eq (σ : CopySession) :
    σ.begun =
      σ.processed.length + (terms σ.waiting).length + σ.opened.toNat := by
  unfold begun owners
  cases σ.opened <;> simp [Nat.add_assoc]

/-- The counters play no part. -/
theorem Aligned.recount
    {s : ConnectionState}
    {σ : CopySession}
    (aligned : Aligned s σ)
    (counters : String → Nat) :
    Aligned (s.recount counters) σ :=
  ⟨⟨aligned.numbered.bound, aligned.numbered.ids⟩, aligned.nextCycle,
    aligned.length, aligned.starts⟩

/-- Events that leave the counts of the session alone. -/
theorem Aligned.of_counts
    {s : ConnectionState}
    {σ τ : CopySession}
    (aligned : Aligned s σ)
    (begun : τ.begun = σ.begun)
    (answered : τ.answered = σ.answered)
    (opened : τ.opened = σ.opened) :
    Aligned s τ :=
  ⟨aligned.numbered, begun ▸ aligned.nextCycle,
    by rw [begun, answered]; exact aligned.length,
    by rw [opened]; exact aligned.starts⟩

/-- The client sends a frame and the observer takes it up. -/
theorem Aligned.send
    {s : ConnectionState}
    {σ : CopySession}
    (aligned : Aligned s σ)
    (sha256 : Bytes → String)
    {f : Frame}
    (admitted : σ.admits f) :
    Aligned (s.accept sha256 f) (σ.send f) := by
  have counted := accept_counted sha256 s f
  have numbered := aligned.numbered.accept sha256 f
  have sameAnswered : (σ.send f).answered = σ.answered := rfl
  -- The frame begins a cycle exactly where the observer pushes one.
  have begun : (σ.send f).begun = σ.begun + s.pushes (touch f) := by
    rw [begun_eq, begun_eq]
    simp only [CopySession.send, terms_concat, List.length_append]
    by_cases terminates : f.terminates = true
    · rw [touch_of_terminates terminates]
      rcases sync_of_admits admitted terminates with sync | ⟨query, closed⟩
      · simp only [sync, pushes, aligned.starts, decide_true, terminates]
        cases σ.opened <;> simp <;> omega
      · simp [query, pushes, startsCycle, closed, terminates]
        omega
    · rw [Bool.not_eq_true] at terminates
      cases touches : touch f with
      | none =>
          simp [pushes, terminates]
      | some how =>
          rw [touch_of_not_terminates terminates touches]
          simp only [pushes, aligned.starts, terminates]
          cases σ.opened <;> simp
  have opened :
      (s.accept sha256 f).startsCycle true = !(σ.send f).opened := by
    rw [counted.starts]
    simp only [CopySession.send]
    by_cases terminates : f.terminates = true
    · rw [touch_of_terminates terminates, if_pos terminates]
      rcases terminates_iff.mp terminates with query | sync
      · simp [query]
      · simp [sync]
    · rw [if_neg terminates]
      rw [Bool.not_eq_true] at terminates
      cases touches : touch f with
      | none =>
          simp [aligned.starts]
      | some how =>
          rw [touch_of_not_terminates terminates touches]
          simp
  refine ⟨numbered, ?_, ?_, opened⟩
  · rw [counted.nextCycle, aligned.nextCycle, begun]
  · have length := aligned.length
    have pushed := counted.length
    omega

/-- The server takes up a frame the observer is not told about. -/
theorem Aligned.drop
    {s : ConnectionState}
    {σ : CopySession}
    (aligned : Aligned s σ) :
    Aligned s σ.drop := by
  unfold CopySession.drop
  split
  · exact aligned
  · rename_i x rest shape
    split
    · rename_i terminates
      refine aligned.of_counts ?_ ?_ rfl
      · rw [begun_eq, begun_eq, shape, terms_cons, if_pos terminates]
        simp
        omega
      · simp [answered]
    · rename_i goesOn
      refine aligned.of_counts ?_ rfl rfl
      rw [begun_eq, begun_eq, shape, terms_cons, if_neg goesOn]
      simp

/-- The server is done with a frame that asks for no `ReadyForQuery`. -/
theorem begun_of_goesOn
    {σ τ : CopySession}
    {x : Item}
    (shape : σ.waiting = x :: τ.waiting)
    (goesOn : x.frame.terminates = false)
    (processed : τ.processed = σ.processed)
    (opened : τ.opened = σ.opened) :
    τ.begun = σ.begun := by
  rw [begun_eq, begun_eq, shape, terms_cons, processed, opened]
  simp [goesOn]

/-- A reply other than `ReadyForQuery` answers no `Query` and no `Sync`. -/
theorem goesOn_of_concludes
    {mode : ServerMode}
    {x : Item}
    {f : Frame}
    (done : concludes mode x f = true) :
    x.frame.terminates = false := by
  cases mode with
  | ready =>
      unfold concludes finishes at done
      simp only at done
      unfold Frame.terminates
      split at done <;> simp_all
  | copying =>
      simp only [concludes, decide_eq_true_eq] at done
      have other := frontendTag_of_copyTag (f := x.frame) (by simp [done.1])
      simp [Frame.terminates, other]
  | skipping =>
      cases done

/-- A server frame that ends no cycle leaves the counts of the queue alone. -/
theorem Aligned.open
    {s : ConnectionState}
    {σ : CopySession}
    (aligned : Aligned s σ)
    {f : Frame}
    (stays : readyStatus f = none) :
    Aligned (s.advance f) σ where
  numbered := aligned.numbered.advance f
  nextCycle := by
    rw [advance_nextCycle]
    exact aligned.nextCycle
  length := by
    rw [advance_cycles_of_open s stays, length_modifyFront]
    exact aligned.length
  starts := by
    rw [startsCycle_advance (Or.inl stays)]
    exact aligned.starts

/-- The server enters copy-in mode without any effect on the cycles. -/
theorem Aligned.enter
    {s : ConnectionState}
    {σ : CopySession}
    (aligned : Aligned s σ)
    (enters : σ.entersCopy = true) :
    Aligned s σ.enter := by
  obtain ⟨x, execute, shape⟩ := shape_of_entersCopy enters
  have goesOn : x.frame.terminates = false := by
    simp [Frame.terminates, execute]
  rcases shape with shape | ⟨y, shape, -⟩
  all_goals
    refine aligned.of_counts (begun_of_goesOn (x := x) ?_ goesOn ?_ ?_) ?_ ?_
    all_goals simp [CopySession.enter, shape, answered]

theorem Aligned.fail
    {s : ConnectionState}
    {σ : CopySession}
    (aligned : Aligned s σ) :
    Aligned s σ.fail := by
  unfold CopySession.fail
  split
  · exact aligned.of_counts rfl rfl rfl
  · rename_i x rest shape
    split
    · exact aligned.of_counts rfl rfl rfl
    · rename_i goesOn
      rw [Bool.not_eq_true] at goesOn
      exact aligned.of_counts (begun_of_goesOn shape goesOn rfl rfl) rfl rfl

theorem Aligned.answer
    {s : ConnectionState}
    {σ : CopySession}
    (aligned : Aligned s σ)
    (f : Frame) :
    Aligned s (σ.answer f) := by
  unfold CopySession.answer
  split
  · exact aligned
  · rename_i x rest shape
    split
    · rename_i done
      exact aligned.of_counts
        (begun_of_goesOn shape (goesOn_of_concludes done) rfl rfl) rfl rfl
    · exact aligned

/-- `ReadyForQuery` ends the front cycle. -/
theorem Aligned.settle
    {s : ConnectionState}
    {σ : CopySession}
    (aligned : Aligned s σ)
    (sound : Sound σ)
    {f : Frame}
    {status : TxState}
    (ready : readyStatus f = some status)
    {x : Item}
    {rest : List Item}
    (shape : σ.waiting = x :: rest)
    (terminates : x.frame.terminates = true) :
    Aligned (s.advance f) σ.settle := by
  have cycles := advance_cycles_of_ready s ready
  have fewer := sound.discarded.length_le
  have length := aligned.length
  have settled :
      σ.settle =
        { σ with
          waiting := rest, mode := .ready
          processed := σ.processed ++ [x.group] } := by
    simp [CopySession.settle, shape]
  have before : σ.begun =
      σ.processed.length + ((terms rest).length + 1) + σ.opened.toNat := by
    rw [begun_eq, shape, terms_cons, if_pos terminates]
    simp [Nat.add_comm]
  have begun : σ.settle.begun = σ.begun := by
    rw [before, begun_eq, settled]
    simp
    omega
  have answers : σ.settle.answered = σ.answered + 1 := by
    rw [settled]
    simp only [answered, List.length_append, List.length_singleton]
    omega
  have opened : σ.settle.opened = σ.opened := by rw [settled]
  have bound : σ.answered ≤ σ.processed.length := Nat.sub_le _ _
  refine ⟨aligned.numbered.advance f, ?_, ?_, ?_⟩
  · rw [advance_nextCycle, begun]
    exact aligned.nextCycle
  · rw [cycles, List.length_tail, begun, answers]
    omega
  · rw [opened]
    by_cases last : s.cycles.tail = []
    · -- Every begun cycle is answered, so the client is between groups.
      have shorter := congrArg List.length last
      simp only [List.length_tail, List.length_nil] at shorter
      have closed : σ.opened = false := by
        cases isOpened : σ.opened with
        | false =>
            rfl
        | true =>
            rw [isOpened, Bool.toNat_true] at before
            omega
      simp [startsCycle, cycles, last, closed]
    · rw [startsCycle_advance (Or.inr last)]
      exact aligned.starts

/-- One permitted event keeps the alignment. -/
theorem Aligned.server
    {s : ConnectionState}
    {σ : CopySession}
    (aligned : Aligned s σ)
    (sound : Sound σ)
    {f : Frame}
    (permitted : σ.permits (.server f)) :
    Aligned (s.advance f) (σ.step (.server f)) := by
  have silent (tag : f.backendTag ≠ .readyForQuery) : readyStatus f = none := by
    simp [readyStatus, tag]
  simp only [CopySession.step]
  split
  · rename_i enters
    have other := backendTag_of_isCopyIn enters
    exact (aligned.open (silent (by simp [other]))).enter (permitted.1 enters)
  · split
    · rename_i ready
      obtain ⟨known, -, asked⟩ := permitted.2.1 ready
      obtain ⟨status, isStatus⟩ := Option.isSome_iff_exists.mp known
      cases shape : σ.waiting with
      | nil =>
          simp [shape] at asked
      | cons x rest =>
          rw [shape] at asked
          exact aligned.settle sound isStatus shape asked
    · rename_i error
      exact (aligned.open (silent (by simp [error]))).fail
    · rename_i ready _
      exact (aligned.open (silent ready)).answer f

/-- A server that only talks leaves the queue empty. -/
theorem aligned_greeted
    (sha256 : Bytes → String)
    (id : Nat)
    (startup : StartupMetadata)
    (greeting : List Frame) :
    Aligned (greeted sha256 id startup greeting) {} := by
  obtain ⟨cycles, nextCycle⟩ := greeted_empty sha256 id startup greeting
  refine ⟨⟨by simp [cycles], by simp [cycles]⟩, nextCycle, ?_, ?_⟩
  · rw [cycles]
    rfl
  · simp [startsCycle, cycles]

/-- What a call moves is all of the observer but the counters. -/
theorem Aligned.called
    {sha256 : Bytes → String}
    {s : ConnectionState}
    {σ : CopySession}
    {call : Call}
    (aligned : Aligned (s.moves sha256 call) σ) :
    Aligned (History.called sha256 s call).2 σ := by
  obtain ⟨counters, state⟩ := called_state sha256 s call
  rw [state]
  exact aligned.recount counters

/-- Every event of a session is permitted when it comes. -/
def Causal (σ : CopySession) (moves : List Move) : Prop :=
  Machine.Permitted permits step σ moves

/-- Every causal session keeps both ends sound and the queue aligned. -/
theorem aligned_run
    (sha256 : Bytes → String)
    {s : ConnectionState}
    {σ : CopySession}
    (sound : Sound σ)
    (aligned : Aligned s σ)
    {moves : List Move}
    (causal : σ.Causal moves) :
    Sound (σ.run moves) ∧
      Aligned (s.observe sha256 (calls moves)) (σ.run moves) := by
  induction moves generalizing s σ with
  | nil =>
      exact ⟨sound, aligned⟩
  | cons move later inductionHypothesis =>
      have soundAfter := sound.step causal.1
      cases move with
      | client f =>
          exact inductionHypothesis soundAfter
            (Aligned.called (aligned.send sha256 causal.1)) causal.2
      | forwarded =>
          exact inductionHypothesis soundAfter
            (@Aligned.called sha256 s σ .forwarded aligned) causal.2
      | server f =>
          exact inductionHypothesis soundAfter
            (Aligned.called (aligned.server sound causal.1)) causal.2
      | discard =>
          exact inductionHypothesis soundAfter aligned.drop causal.2

/-! ## Attribution -/

/--
In an ordered list whose greatest entry is `top`, the last entries are `top`: as
many as there are in any sublist.
-/
theorem getElem?_of_top
    {entries picked : List Nat}
    {top : Nat}
    (ordered : entries.Pairwise (· ≤ ·))
    (bounded : ∀ entry ∈ entries, entry ≤ top)
    (sublist : picked.Sublist entries)
    (onTop : ∀ entry ∈ picked, entry = top)
    (nonempty : picked ≠ []) :
    entries[entries.length - picked.length]? = some top := by
  have positive : 0 < picked.length := List.length_pos_iff.mpr nonempty
  have fits := sublist.length_le
  have inside : entries.length - picked.length < entries.length := by omega
  rw [List.getElem?_eq_getElem inside, Option.some.injEq]
  refine Nat.le_antisymm (bounded _ (List.getElem_mem inside)) ?_
  by_contra below
  -- Otherwise too few entries are left for those of the sublist.
  have early (i : Nat) (before : i ≤ entries.length - picked.length)
      (bound : i < entries.length) : entries[i] ≠ top := by
    have least : entries[i] ≤ entries[entries.length - picked.length] := by
      rcases Nat.lt_or_eq_of_le before with earlier | same
      · exact List.pairwise_iff_getElem.mp ordered _ _ bound inside earlier
      · simp only [same, Nat.le_refl]
    omega
  have noneEarly :
      (entries.take (entries.length - picked.length + 1)).count top = 0 := by
    rw [List.count_eq_zero]
    intro member
    obtain ⟨i, bound, isTop⟩ := List.mem_iff_getElem.mp member
    rw [List.length_take] at bound
    rw [List.getElem_take] at isTop
    exact early i (by omega) (by omega) isTop
  have split :=
    List.take_append_drop (entries.length - picked.length + 1) entries
  have counted := congrArg (List.count top) split
  rw [List.count_append, noneEarly] at counted
  have few :=
    List.count_le_length (a := top)
      (l := entries.drop (entries.length - picked.length + 1))
  rw [List.length_drop] at few
  have all : picked.count top = picked.length :=
    List.count_eq_length.mpr fun entry member => (onTop entry member).symm
  have fewer := sublist.count_le top
  omega

/-- The cycle in front has the number behind the answered ones. -/
theorem Aligned.backend_cycle
    {s : ConnectionState}
    {σ : CopySession}
    (aligned : Aligned s σ)
    {group : Nat}
    (owned : σ.owners[σ.answered]? = some group)
    {f : Frame}
    {e : Event}
    (member : e ∈ (s.backend f).1) :
    e.queryCycle = σ.answered + 1 := by
  have length := aligned.length
  have nextCycle := aligned.nextCycle
  have waits : σ.answered < σ.begun := (List.getElem?_eq_some_iff.mp owned).1
  cases front : s.cycles.head? with
  | none =>
      rw [List.head?_eq_none_iff] at front
      rw [front, List.length_nil] at length
      omega
  | some c =>
      have located := congrArg Coordinates.queryCycle (mem_backend member).2.1
      have isFront : e.queryCycle = c.id := by
        simpa [Event.coordinates, ConnectionState.coordinates, referenced,
          front] using located
      have number := aligned.numbered.front_id front
      omega

/-- Before any `Sync` is discarded, the next cycle is of the next frame's group. -/
theorem Sound.owner_of_none
    {σ : CopySession}
    (sound : Sound σ)
    (none : σ.discarded = [])
    {x : Item}
    {rest : List Item}
    (shape : σ.waiting = x :: rest)
    (works : (touch x.frame).isSome = true) :
    σ.owners[σ.answered]? = some x.group := by
  have chained := sound.chained
  have loose := sound.loose
  rw [shape] at chained loose
  have own := chained.1
  rw [segment_eq] at own
  have answered : σ.answered = σ.processed.length := by
    simp [CopySession.answered, none]
  rw [answered, owners, List.append_assoc,
    List.getElem?_append_right (Nat.le_refl _), Nat.sub_self, shape]
  cases ends : terms (x :: rest) with
  | nil =>
      rw [ends] at own
      have opened := loose.1 works ends
      simpa [opened] using own.symm
  | cons first others =>
      rw [ends] at own
      simpa using own.symm

/-- Within the group of the discarded frames, the next cycle is of that group. -/
theorem Sound.owner_of_some
    {σ : CopySession}
    (sound : Sound σ)
    (disturbed : σ.discarded ≠ [])
    {x : Item}
    {rest : List Item}
    (shape : σ.waiting = x :: rest)
    (undisturbed : ∀ d ∈ σ.discarded, x.group ≤ d) :
    σ.owners[σ.answered]? = some x.group := by
  have ordered := sound.ordered
  rw [shape, List.pairwise_append] at ordered
  obtain ⟨within, -, across⟩ := ordered
  have bounded (entry : Nat) (member : entry ∈ σ.processed) :
      entry ≤ x.group :=
    across entry member x.group (by simp)
  have onTop (entry : Nat) (member : entry ∈ σ.discarded) :
      entry = x.group :=
    Nat.le_antisymm (bounded entry (sound.discarded.subset member))
      (undisturbed entry member)
  have found := getElem?_of_top within bounded sound.discarded onTop disturbed
  have inside := (List.getElem?_eq_some_iff.mp found).1
  rw [owners, List.append_assoc, answered, List.getElem?_append_left inside]
  exact found

/-- The frame a completed command or a `ReadyForQuery` answers. -/
theorem Sound.owner
    {σ : CopySession}
    (sound : Sound σ)
    (undisturbed : σ.undisturbed)
    {f : Frame}
    (permitted : σ.permits (.server f))
    (answers :
      f.backendTag = .commandComplete ∨ f.backendTag = .readyForQuery) :
    ∃ x rest,
      σ.waiting = x :: rest ∧ σ.owners[σ.answered]? = some x.group := by
  have asked :
      ∃ x rest, σ.waiting = x :: rest ∧
        (x.frame.terminates = true ∨ completes σ.mode x = true) := by
    cases shape : σ.waiting with
    | nil =>
        rcases answers with complete | ready
        · simpa [shape] using permitted.2.2 complete
        · simpa [shape] using (permitted.2.1 ready).2.2
    | cons x rest =>
        refine ⟨x, rest, rfl, ?_⟩
        rcases answers with complete | ready
        · exact Or.inr (by simpa [shape] using permitted.2.2 complete)
        · exact Or.inl (by simpa [shape] using (permitted.2.1 ready).2.2)
  obtain ⟨x, rest, shape, asks⟩ := asked
  refine ⟨x, rest, shape, ?_⟩
  by_cases none : σ.discarded = []
  · refine sound.owner_of_none none shape ?_
    rcases asks with terminates | done
    · rw [touch_of_terminates terminates]
      rfl
    · cases mode : σ.mode with
      | ready =>
          rw [mode] at done
          rcases of_decide_eq_true done with execute | query
          · simp [touch, execute]
          · simp [touch, query]
      | copying =>
          -- The end of the data is behind a `Sync` that was discarded.
          rcases sound.copies mode none with ⟨empty, -⟩ | ⟨y, _, head, sync⟩
          · rw [shape] at empty
            cases empty
          · rw [shape] at head
            cases head
            simp [touch, sync]
      | skipping =>
          rw [mode] at done
          cases done
  · refine sound.owner_of_some none shape ?_
    intro d member
    exact undisturbed x.group (by simp [answering, shape]) d member

/-- A `Sync` has been discarded exactly where fewer are answered than taken up. -/
theorem Sound.answered_eq
    {σ : CopySession}
    (sound : Sound σ) :
    σ.answered = σ.processed.length ↔ σ.discarded = [] := by
  have fewer := sound.discarded.length_le
  unfold answered
  rw [← List.length_eq_zero_iff]
  constructor
  · intro same
    omega
  · intro none
    omega

/--
COPY groups.  After every causal session that follows the greeting: when the
server owes nothing, the queue is empty exactly if the server has discarded no
`Sync`; and a completed command or a `ReadyForQuery` is attributed to the group
it answers unless a `Sync` of an earlier group was discarded.
-/
theorem copy_alignment
    (sha256 : Bytes → String)
    (id : Nat)
    (startup : StartupMetadata)
    (greeting : List Frame)
    (moves : List Move)
    (causal : Causal {} moves) :
    let s := (greeted sha256 id startup greeting).observe sha256 (calls moves)
    let σ := run {} moves
    (σ.quiet → (s.cycles = [] ↔ σ.discarded = [])) ∧
      (σ.undisturbed →
        ∀ f e,
          σ.permits (.server f) →
          f.backendTag = .commandComplete ∨ f.backendTag = .readyForQuery →
          e ∈ (s.backend f).1 →
          σ.Attributed e) := by
  intro s σ
  obtain ⟨sound, aligned⟩ :=
    aligned_run sha256 sound_initial
      (aligned_greeted sha256 id startup greeting) causal
  refine ⟨?_, ?_⟩
  · rintro ⟨empty, -, closed⟩
    have length := aligned.length
    have begun := begun_eq σ
    rw [show σ.waiting = [] from empty, show σ.opened = false from closed]
      at begun
    rw [← sound.answered_eq, ← List.length_eq_zero_iff]
    simp only [terms, List.filter_nil, List.map_nil, List.length_nil,
      Bool.toNat_false, Nat.add_zero] at begun
    change s.cycles.length + σ.answered = σ.begun at length
    change s.cycles.length = 0 ↔ σ.answered = σ.processed.length
    omega
  · intro undisturbed f e permitted answers member
    obtain ⟨x, rest, shape, owned⟩ := sound.owner undisturbed permitted answers
    have number := aligned.backend_cycle owned member
    refine ⟨by omega, ?_⟩
    rw [number, Nat.add_sub_cancel]
    have answering : σ.answering = some x.group := by
      rw [CopySession.answering, show σ.waiting = x :: rest from shape]
      rfl
    rw [answering]
    exact owned

instance decidableAdmits (σ : CopySession) (f : Frame) :
    Decidable (σ.admits f) :=
  match phase : σ.phase with
  | .none =>
      decidable_of_iff
        (f.frontendTag = .query ∧ σ.opened = false ∨
          Pipeline.isExtended f.frontendTag = true ∨ f.frontendTag = .sync)
        (by simp only [admits, phase])
  | .entered =>
      decidable_of_iff (f.frontendTag = .sync) (by simp only [admits, phase])
  | .sending =>
      decidable_of_iff
        (f.copyTag.isSome = true ∨
          f.frontendTag = .sync ∧ σ.mode ≠ .copying)
        (by simp only [admits, phase])
  | .closing =>
      decidable_of_iff (f.frontendTag = .sync) (by simp only [admits, phase])

instance decidablePermits (σ : CopySession) :
    (move : Move) → Decidable (σ.permits move)
  | .forwarded => inferInstanceAs (Decidable True)
  | .client f => decidableAdmits σ f
  | .discard =>
      inferInstanceAs
        (Decidable (σ.waiting.head?.any (discards σ.mode) = true))
  | .server f =>
      inferInstanceAs
        (Decidable ((f.isCopyIn = true → σ.entersCopy = true) ∧
          (f.backendTag = .readyForQuery →
            (readyStatus f).isSome = true ∧ σ.mode ≠ .copying ∧
              σ.waiting.head?.any (fun x => x.frame.terminates) = true) ∧
          (f.backendTag = .commandComplete →
            σ.waiting.head?.any (completes σ.mode) = true)))

instance (σ : CopySession) (moves : List Move) :
    Decidable (σ.Causal moves) :=
  inferInstanceAs (Decidable (Machine.Permitted permits step σ moves))

/-- A `COPY` group up to the reply that completes it. -/
def copyGroup : List Move :=
  [.client (message 'P' ([0] ++ ascii "COPY t FROM STDIN" ++ [0, 0, 0])),
    .client (message 'B' [0, 0, 0, 0, 0, 0, 0, 0]),
    .client (message 'E' [0, 0, 0, 0, 0]),
    .client (message 'S' []),
    .server (message '1' []),
    .server (message '2' []),
    .server (message 'G' [0, 0, 0]),
    .discard,
    .client (message 'd' (ascii "1")),
    .client (message 'c' []),
    .client (message 'S' []),
    .discard]

theorem copy_alignment_copyGroup :
    let s :=
      (greeted sampleSha256 1 default [message 'Z' (ascii "I")]).observe
        sampleSha256 (calls copyGroup)
    ∀ e ∈ (s.backend (message 'C' (ascii "COPY 1" ++ [0]))).1,
      Attributed (run {} copyGroup) e := by
  obtain ⟨-, attributed⟩ :=
    copy_alignment sampleSha256 1 default [message 'Z' (ascii "I")] copyGroup
      (by decide +kernel)
  intro s e member
  refine attributed ?_ _ e (by decide +kernel) (Or.inl (by decide)) member
  unfold undisturbed
  decide +kernel

/-- The rest of the group, and the query behind it. -/
def copyThenQuery : List Move :=
  copyGroup ++
    [.server (message 'C' (ascii "COPY 1" ++ [0])),
      .server (message 'Z' (ascii "I"))]

theorem copy_misaligned_copyThenQuery :
    let greeting := [message 'Z' (ascii "I")]
    let behind := copyThenQuery ++
      [.client (message 'Q' (ascii "SELECT 1" ++ [0]))]
    let reply := message 'C' (ascii "SELECT 1" ++ [0])
    Causal {} behind ∧ permits (run {} behind) (.server reply) ∧
      quiet (run {} copyThenQuery) ∧
      ((greeted sampleSha256 1 default greeting).observe sampleSha256
        (calls copyThenQuery)).cycles ≠ [] ∧
      ∃ e ∈ (((greeted sampleSha256 1 default greeting).observe sampleSha256
          (calls behind)).backend reply).1,
        ¬ Attributed (run {} behind) e := by
  refine ⟨by decide +kernel, by decide +kernel, ?_, by decide +kernel, ?_⟩
  · unfold quiet
    decide +kernel
  · unfold Attributed
    decide +kernel

end CopySession

end Pgfault
