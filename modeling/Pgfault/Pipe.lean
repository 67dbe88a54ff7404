import Pgfault.Framing
import Pgfault.Transparency

namespace Pgfault

open Incremental Relay

/-!
# The loop on bytes

`Relay` takes whole frames.  The loop of `connection` takes bytes: each side has
a `FrameReader` whose `next` is polled by the `select!`, reads when its buffer
holds no whole frame, and is dropped when the other side answers first.  A `Wake`
is one such poll together with what the socket of that side does.

The loop on bytes refines the loop on frames (`pipe_refines_relay`): whatever the
reads and their order, it does what the relay does on the frames the two byte
streams consist of.  So nothing about the chunks shows, and what holds of every
run of the relay holds of every run of the proxy on its sockets.
-/

/-- The loop of `connection` with its two frame readers. -/
structure Pipe where
  relay : Relay
  /-- The buffer of the frame reader of a side. -/
  reader : Side → Bytes
  /-- Everything read from a side so far; the proxy keeps no such record. -/
  taken : Side → Bytes

/-- One poll of a frame reader, and what its socket does if it reads. -/
inductive Wake where
  /-- The reader finds a whole frame in its buffer, or nothing to read. -/
  | poll (side : Side)
  /-- A read returns some bytes. -/
  | read (side : Side) (chunk : Chunk)
  /-- A read returns no bytes: the peer has closed its side. -/
  | eof (side : Side)
  /-- A read fails. -/
  | failed (side : Side) (message : String)

namespace Pipe

/-- The input of the relay a reader of a side returns. -/
def input : Side → Read → Input
  | .frontend, read => .client read
  | .upstream, read => .server read

/-- The loop before its first turn. -/
def start
    (id : Nat)
    (startup : StartupMetadata)
    (scenarios : List Scenario) : Pipe where
  relay := Relay.start id startup scenarios
  reader := fun _ => []
  taken := fun _ => []

section

variable (sha256 : Bytes → String) (parseDuration : String → Except String Nat)

/-- The branch of the `select!` whose reader has returned. -/
def answer (p : Pipe) (side : Side) (read : Read) : Pipe :=
  { p with relay := p.relay.step sha256 parseDuration (input side read) }

/-- Go on with what a call of `next` leaves behind; a dropped one answers nothing. -/
def take (p : Pipe) (side : Side) (returned : Next) : Pipe :=
  let left := { p with reader := Function.update p.reader side returned.buffer }
  match returned.answer with
  | none => left
  | some (.ok (some f)) => left.answer sha256 parseDuration side (.frame f)
  | some (.ok none) => left.answer sha256 parseDuration side .eof
  | some (.error message) =>
      left.answer sha256 parseDuration side (.error message)

/-- Whether the reader of a side would read: its buffer holds no whole frame. -/
def waits (p : Pipe) (side : Side) : Bool :=
  match decode (p.reader side) with
  | (.ok none, _) => true
  | _ => false

/-- One wake of the loop. -/
def step (p : Pipe) (wake : Wake) : Pipe :=
  if p.relay.exit.isSome then
    p
  else
    match wake with
    | .poll side =>
        p.take sha256 parseDuration side (next (p.reader side) [.cancel])
    | .read side chunk =>
        if p.waits side then
          { p with
            taken :=
              Function.update p.taken side
                (p.taken side ++ chunk.bytes) }.take sha256 parseDuration side
                  (next (p.reader side) [.chunk chunk, .cancel])
        else
          p
    | .eof side =>
        if p.waits side then
          p.take sha256 parseDuration side (next (p.reader side) [])
        else
          p
    | .failed side message =>
        if p.waits side then
          p.answer sha256 parseDuration side (.error message)
        else
          p

/-- A whole run of the loop. -/
def run (p : Pipe) (wakes : List Wake) : Pipe :=
  Machine.run (step sha256 parseDuration) p wakes

end

/-! ## Frames of a byte stream -/

/-- The frames of a side among the inputs. -/
def framesOf : Side → List Input → List Frame
  | .frontend, inputs => clientFrames inputs
  | .upstream, inputs => serverFrames inputs

@[simp] theorem framesOf_append
    (side : Side)
    (before after : List Input) :
    framesOf side (before ++ after) =
      framesOf side before ++ framesOf side after := by
  cases side <;> simp [framesOf]

theorem framesOf_frame (side other : Side) (f : Frame) :
    framesOf other [input side (.frame f)] =
      if other = side then [f] else [] := by
  cases side <;> cases other <;> rfl

/-- The end of a stream is no frame. -/
theorem framesOf_silent
    (side other : Side)
    {read : Read}
    (silent : ∀ f, read ≠ .frame f) :
    framesOf other [input side read] = [] := by
  cases read with
  | frame f =>
      exact absurd rfl (silent f)
  | eof =>
      cases side <;> cases other <;> rfl
  | error message =>
      cases side <;> cases other <;> rfl

/-- A decoded frame in front of other bytes is decoded again. -/
theorem drain_cons
    {buffer rest : Bytes}
    {f : Frame}
    (decoded : decode buffer = (.ok (some f), rest))
    (more : Bytes) :
    decoder.drain (f.raw ++ more) =
      { decoder.drain more with
        values := f :: (decoder.drain more).values } := by
  obtain ⟨built, fits⟩ := frame_of_decode decoded
  have again : decode (f.raw ++ more) = (.ok (some f), more) := by
    have taken := @decode_frame (f.tag, f.body) fits more
    rw [built] at taken
    exact taken
  exact Decoder.drain_of_value (d := decoder) again

/-! ## What a wake does -/

/-- What a poll answers, by what `decode` says of the buffer. -/
inductive Polled (buffer : Bytes) : Next → Prop where
  | nothing
      {rest : List Poll}
      (waits : decode buffer = (.ok none, buffer)) :
      Polled buffer ⟨none, buffer, rest⟩
  | frame
      {rest : List Poll}
      {f : Frame}
      {left : Bytes}
      (decoded : decode buffer = (.ok (some f), left)) :
      Polled buffer ⟨some (.ok (some f)), left, rest⟩
  | invalid
      {rest : List Poll}
      {message : String}
      (refused : decode buffer = (.error message, buffer)) :
      Polled buffer ⟨some (.error message), buffer, rest⟩

theorem next_polled (buffer : Bytes) : Polled buffer (next buffer [.cancel]) := by
  unfold next
  rcases decode_cases buffer with
      ⟨waits, -⟩ | ⟨refused, -⟩ | ⟨f, takes, -⟩
  · rw [waits]
    exact .nothing waits
  · rw [refused]
    exact .invalid refused
  · rw [takes]
    exact .frame takes

theorem waits_iff (p : Pipe) (side : Side) :
    p.waits side = true ↔
      decode (p.reader side) = (.ok none, p.reader side) := by
  unfold waits
  rcases decode_cases (p.reader side) with
      ⟨waits, -⟩ | ⟨refused, -⟩ | ⟨f, takes, -⟩
  · simp [waits]
  · simp [refused]
  · simp [takes]

/-- A read by a reader that waits is a poll of the longer buffer. -/
theorem next_read
    {buffer : Bytes}
    (waits : decode buffer = (.ok none, buffer))
    (chunk : Chunk) :
    next buffer [.chunk chunk, .cancel] =
      next (buffer ++ chunk.bytes) [.cancel] := by
  rw [next, waits]

theorem next_eof
    {buffer : Bytes}
    (waits : decode buffer = (.ok none, buffer)) :
    ∃ read,
      (∀ f, read ≠ Read.frame f) ∧
        (next buffer [] = ⟨some (.ok none), buffer, []⟩ ∧ read = .eof ∨
          ∃ message,
            next buffer [] = ⟨some (.error message), buffer, []⟩ ∧
              read = .error message) := by
  rw [next, waits]
  by_cases empty : buffer.isEmpty = true
  · refine ⟨.eof, by simp, Or.inl ⟨?_, rfl⟩⟩
    simp [empty]
  · refine ⟨.error "EOF inside PostgreSQL frame", by simp, Or.inr ?_⟩
    exact ⟨_, by simp [empty], rfl⟩

section

variable (sha256 : Bytes → String) (parseDuration : String → Except String Nat)

/-- How a wake changes the loop: some bytes are read, and a side may answer. -/
structure Moves (p : Pipe) (side : Side) (bytes : Bytes) (t : Pipe) : Prop where
  taken : t.taken = Function.update p.taken side (p.taken side ++ bytes)
  others : ∀ other, other ≠ side → t.reader other = p.reader other
  answers :
    (t.relay = p.relay ∧ t.reader side = p.reader side ++ bytes) ∨
      (∃ f,
        t.relay =
            p.relay.step sha256 parseDuration (input side (.frame f)) ∧
          decode (p.reader side ++ bytes) =
            (.ok (some f), t.reader side)) ∨
      ∃ read,
        (∀ f, read ≠ Read.frame f) ∧
          t.relay = p.relay.step sha256 parseDuration (input side read) ∧
          t.reader side = p.reader side ++ bytes

/-- Going on with what a poll has answered. -/
theorem take_moves
    (p : Pipe)
    (side : Side)
    {bytes : Bytes}
    {returned : Next}
    (polled : Polled (p.reader side ++ bytes) returned) :
    Moves sha256 parseDuration p side bytes
      ({ p with
        taken :=
          Function.update p.taken side (p.taken side ++ bytes) }.take sha256
            parseDuration side returned) := by
  have away (left : Bytes) (other : Side) (different : other ≠ side) :
      Function.update p.reader side left other = p.reader other :=
    Function.update_of_ne different left p.reader
  cases polled with
  | nothing waits =>
      refine ⟨rfl, away _, Or.inl ⟨rfl, ?_⟩⟩
      exact Function.update_self _ _ _
  | frame decoded =>
      refine ⟨rfl, away _, Or.inr (Or.inl ⟨_, rfl, ?_⟩)⟩
      rw [decoded]
      simp [take, answer]
  | invalid refused =>
      refine ⟨rfl, away _, Or.inr (Or.inr ⟨.error _, by simp, rfl, ?_⟩)⟩
      exact Function.update_self _ _ _

/-- Reading nothing is no change of what has been read. -/
theorem untaken (p : Pipe) (side : Side) :
    { p with taken := Function.update p.taken side (p.taken side ++ []) } =
      p := by
  rw [List.append_nil, Function.update_eq_self]

/-- One wake: nothing happens, or some side moves. -/
theorem step_moves (p : Pipe) (wake : Wake) :
    p.step sha256 parseDuration wake = p ∨
      ∃ side bytes,
        (∀ limit,
          (∀ other chunk, wake = .read other chunk →
            chunk.bytes.length ≤ limit) →
          bytes.length ≤ limit) ∧
        (bytes ≠ [] → p.waits side = true) ∧
        Moves sha256 parseDuration p side bytes
          (p.step sha256 parseDuration wake) := by
  unfold step
  by_cases exited : p.relay.exit.isSome = true
  · exact Or.inl (if_pos exited)
  · rw [if_neg exited]
    cases wake with
    | poll side =>
        refine Or.inr ⟨side, [], by simp, by simp, ?_⟩
        have polled :
            Polled (p.reader side ++ []) (next (p.reader side) [.cancel]) := by
          rw [List.append_nil]
          exact next_polled (p.reader side)
        have moves := take_moves sha256 parseDuration p side polled
        rw [untaken] at moves
        exact moves
    | read side chunk =>
        by_cases waiting : p.waits side = true
        · refine Or.inr ⟨side, chunk.bytes, ?_, fun _ => waiting, ?_⟩
          · intro limit within
            exact within side chunk rfl
          · have polled := next_polled (p.reader side ++ chunk.bytes)
            rw [← next_read ((waits_iff p side).mp waiting) chunk] at polled
            simp only [if_pos waiting]
            exact take_moves sha256 parseDuration p side polled
        · exact Or.inl (by simp only [if_neg waiting])
    | eof side =>
        by_cases waiting : p.waits side = true
        · refine Or.inr ⟨side, [], by simp, by simp, ?_⟩
          simp only [if_pos waiting]
          have stays :
              ∀ other, other ≠ side →
                Function.update p.reader side (p.reader side) other =
                  p.reader other :=
            fun other different =>
              Function.update_of_ne different _ p.reader
          have kept :
              p.taken = Function.update p.taken side (p.taken side ++ []) := by
            rw [List.append_nil, Function.update_eq_self]
          obtain ⟨read, silent, ⟨ends, rfl⟩ | ⟨message, ends, rfl⟩⟩ :=
            next_eof ((waits_iff p side).mp waiting)
          · rw [ends]
            refine ⟨kept, stays, Or.inr (Or.inr ⟨_, silent, rfl, ?_⟩)⟩
            simp [take, answer]
          · rw [ends]
            refine ⟨kept, stays, Or.inr (Or.inr ⟨_, silent, rfl, ?_⟩)⟩
            simp [take, answer]
        · exact Or.inl (by simp only [if_neg waiting])
    | failed side message =>
        by_cases waiting : p.waits side = true
        · refine Or.inr ⟨side, [], by simp, by simp, ?_⟩
          simp only [if_pos waiting]
          refine ⟨?_, fun _ _ => rfl,
            Or.inr (Or.inr ⟨.error message, by simp, rfl, ?_⟩)⟩
          · rw [List.append_nil, Function.update_eq_self]
            rfl
          · exact (List.append_nil _).symm
        · exact Or.inl (by simp only [if_neg waiting])

/-! ## Refinement -/

/-- The loop on bytes against the relay on the frames it has taken off. -/
structure Refines (r₀ : Relay) (inputs : List Input) (p : Pipe) : Prop where
  relay : p.relay = r₀.run sha256 parseDuration inputs
  taken :
    ∀ side,
      p.taken side = (framesOf side inputs).flatMap Frame.raw ++ p.reader side
  decoded :
    ∀ side, ∀ f ∈ framesOf side inputs,
      ∃ buffer rest, decode buffer = (.ok (some f), rest)

/-- Draining a stream takes its frames off first. -/
theorem drain_frames
    {frames : List Frame}
    (decoded :
      ∀ f ∈ frames, ∃ buffer rest, decode buffer = (.ok (some f), rest))
    (more : Bytes) :
    (decoder.drain (frames.flatMap Frame.raw ++ more)).values =
      frames ++ (decoder.drain more).values := by
  induction frames with
  | nil =>
      rfl
  | cons f rest inductionHypothesis =>
      obtain ⟨buffer, left, isDecoded⟩ := decoded f List.mem_cons_self
      rw [List.flatMap_cons, List.append_assoc, drain_cons isDecoded]
      simp only [inductionHypothesis fun g member =>
        decoded g (List.mem_cons_of_mem f member), List.cons_append]

/-- A side moves: at most one more input, and the bytes it is made of. -/
theorem Refines.moves
    {r₀ : Relay}
    {inputs : List Input}
    {p t : Pipe}
    (refines : Refines sha256 parseDuration r₀ inputs p)
    {side : Side}
    {bytes : Bytes}
    (moves : Moves sha256 parseDuration p side bytes t) :
    ∃ more, Refines sha256 parseDuration r₀ (inputs ++ more) t := by
  -- The bytes of the side that does not move stay where they are.
  have away
      {more : List Input}
      (silent : ∀ other, other ≠ side → framesOf other more = [])
      (other : Side)
      (different : other ≠ side) :
      t.taken other =
        (framesOf other (inputs ++ more)).flatMap Frame.raw ++
          t.reader other := by
    rw [moves.taken, Function.update_of_ne different, moves.others other
      different, framesOf_append, silent other different, List.append_nil]
    exact refines.taken other
  have taken :
      t.taken side =
        (framesOf side inputs).flatMap Frame.raw ++
          (p.reader side ++ bytes) := by
    rw [moves.taken, Function.update_self, refines.taken side,
      List.append_assoc]
  rcases moves.answers with
      ⟨relay, reader⟩ | ⟨f, relay, decoded⟩ | ⟨read, silent, relay, reader⟩
  · refine ⟨[], ⟨?_, ?_, ?_⟩⟩
    · rw [relay, List.append_nil]
      exact refines.relay
    · intro other
      by_cases same : other = side
      · subst same
        rw [List.append_nil, reader]
        exact taken
      · exact away (fun other _ => by cases other <;> rfl) other same
    · rw [List.append_nil]
      exact refines.decoded
  · refine ⟨[input side (.frame f)], ⟨?_, ?_, ?_⟩⟩
    · rw [relay, run_concat, refines.relay]
    · intro other
      by_cases same : other = side
      · subst same
        rw [framesOf_append, framesOf_frame, if_pos rfl,
          List.flatMap_append, taken, ← (decode_value decoded).1]
        simp
      · refine away ?_ other same
        intro other different
        rw [framesOf_frame, if_neg different]
    · intro other g member
      rw [framesOf_append] at member
      rcases List.mem_append.mp member with old | isNew
      · exact refines.decoded other g old
      · rw [framesOf_frame] at isNew
        split at isNew
        · rw [List.mem_singleton.mp isNew]
          exact ⟨_, _, decoded⟩
        · simp at isNew
  · have quiet (other : Side) := framesOf_silent side other silent
    refine ⟨[input side read], ⟨?_, ?_, ?_⟩⟩
    · rw [relay, run_concat, refines.relay]
    · intro other
      by_cases same : other = side
      · subst same
        rw [framesOf_append, quiet, List.append_nil, reader]
        exact taken
      · exact away (fun other _ => quiet other) other same
    · intro other g member
      rw [framesOf_append, quiet, List.append_nil] at member
      exact refines.decoded other g member

/-- Every run of the loop on bytes is a run of the relay. -/
theorem refines_run
    (id : Nat)
    (startup : StartupMetadata)
    (scenarios : List Scenario)
    (wakes : List Wake) :
    ∃ inputs,
      Refines sha256 parseDuration (Relay.start id startup scenarios) inputs
        ((start id startup scenarios).run sha256 parseDuration wakes) := by
  refine Machine.run_induction
    (motive := fun _ p =>
      ∃ inputs,
        Refines sha256 parseDuration (Relay.start id startup scenarios) inputs
          p) ?_ ?_ wakes
  · refine ⟨[], ⟨rfl, ?_, ?_⟩⟩
    · intro side
      cases side <;> rfl
    · intro side f member
      cases side <;> simp [framesOf, clientFrames, serverFrames] at member
  · rintro before wake ⟨inputs, refines⟩
    rcases step_moves sha256 parseDuration
        (Machine.run (step sha256 parseDuration) (start id startup scenarios)
          before) wake with same | ⟨side, bytes, -, -, moves⟩
    · rw [same]
      exact ⟨inputs, refines⟩
    · obtain ⟨more, next⟩ := refines.moves sha256 parseDuration moves
      exact ⟨inputs ++ more, next⟩

/--
The loop on bytes refines the relay.  Whatever the readers read and in whatever
order they are polled and dropped, the loop has done what the relay does on some
inputs; the frames of each side among these are, in order, the frames its byte
stream decodes to, as far as they have been taken off, and the rest of the bytes
is in the buffer of the reader.
-/
theorem pipe_refines_relay
    (id : Nat)
    (startup : StartupMetadata)
    (scenarios : List Scenario)
    (wakes : List Wake) :
    ∃ inputs,
      ((start id startup scenarios).run sha256 parseDuration wakes).relay =
          (Relay.start id startup scenarios).run sha256 parseDuration inputs ∧
        ∀ side,
          ((start id startup scenarios).run sha256 parseDuration wakes).taken
              side =
            (framesOf side inputs).flatMap Frame.raw ++
              ((start id startup scenarios).run sha256 parseDuration
                wakes).reader side ∧
          (decoder.drain
            (((start id startup scenarios).run sha256 parseDuration
              wakes).taken side)).values =
            framesOf side inputs ++
              (decoder.drain
                (((start id startup scenarios).run sha256 parseDuration
                  wakes).reader side)).values := by
  obtain ⟨inputs, refines⟩ :=
    refines_run sha256 parseDuration id startup scenarios wakes
  refine ⟨inputs, refines.relay, ?_⟩
  intro side
  refine ⟨refines.taken side, ?_⟩
  rw [refines.taken side]
  exact drain_frames (refines.decoded side) _

/-- While nothing has fired, the frames taken off have all been passed on. -/
theorem Refines.conserved
    {id : Nat}
    {startup : StartupMetadata}
    {scenarios : List Scenario}
    {inputs : List Input}
    {p : Pipe}
    (refines :
      Refines sha256 parseDuration (Relay.start id startup scenarios) inputs p)
    (loopPoint : p.relay.exit = none)
    (unfired : ∀ m ∈ p.relay.matchers, m.fired = false) :
    p.relay.toServer.flatMap Frame.raw ++ p.reader .frontend =
        p.taken .frontend ∧
      p.relay.toClient.flatMap (fun d => d.frame.raw) ++
          p.relay.held.flatMap (fun d => d.frame.raw) ++ p.reader .upstream =
        p.taken .upstream := by
  have transparent :=
    transparent_run sha256 parseDuration id startup scenarios inputs
  rw [← refines.relay] at transparent
  obtain ⟨upstream, downstream⟩ := transparent.complete loopPoint unfired
  refine ⟨?_, ?_⟩
  · rw [refines.taken .frontend]
    exact congrArg (fun frames => List.flatMap Frame.raw frames ++ _) upstream
  · have frames :
        (p.relay.toClient ++ p.relay.held).flatMap (fun d => d.frame.raw) =
          (serverFrames inputs).flatMap Frame.raw := by
      rw [← map_arrivals inputs, ← downstream, List.flatMap_map]
    rw [← List.flatMap_append, frames, refines.taken .upstream]
    rfl

/--
No byte is lost, added or moved.  As long as no fault has fired and the loop
runs, what was written to the server is what was read from the client up to the
bytes of an incomplete or unanswered frame, and what was written to the client
and is held for it is what was read from the server up to such bytes.
-/
theorem bytes_conserved
    (id : Nat)
    (startup : StartupMetadata)
    (scenarios : List Scenario)
    (wakes : List Wake)
    (loopPoint :
      ((start id startup scenarios).run sha256 parseDuration
        wakes).relay.exit = none)
    (unfired :
      ∀ m ∈ ((start id startup scenarios).run sha256 parseDuration
          wakes).relay.matchers, m.fired = false) :
    let p := (start id startup scenarios).run sha256 parseDuration wakes
    p.relay.toServer.flatMap Frame.raw ++ p.reader .frontend =
        p.taken .frontend ∧
      p.relay.toClient.flatMap (fun d => d.frame.raw) ++
          p.relay.held.flatMap (fun d => d.frame.raw) ++ p.reader .upstream =
        p.taken .upstream := by
  obtain ⟨inputs, refines⟩ :=
    refines_run sha256 parseDuration id startup scenarios wakes
  exact refines.conserved sha256 parseDuration loopPoint unfired

/-- A greeting in two reads, and a query with the first byte of the next one. -/
def splitReads : List Wake :=
  [.read .upstream ⟨(message 'Z' (ascii "I")).raw.take 3, by decide⟩,
    .poll .frontend,
    .read .upstream ⟨(message 'Z' (ascii "I")).raw.drop 3, by decide⟩,
    .read .frontend
      ⟨(message 'Q' (ascii "SELECT 1" ++ [0])).raw ++ [81], by decide⟩]

theorem bytes_conserved_splitReads :
    let p :=
      (start 1 default [dropCommit]).run sampleSha256 (fun _ => .ok 0)
        splitReads
    p.relay.toServer.flatMap Frame.raw ++ p.reader .frontend =
        p.taken .frontend ∧
      p.relay.toClient.flatMap (fun d => d.frame.raw) ++
          p.relay.held.flatMap (fun d => d.frame.raw) ++ p.reader .upstream =
        p.taken .upstream :=
  bytes_conserved sampleSha256 (fun _ => .ok 0) 1 default [dropCommit]
    splitReads (by decide +kernel) (by decide +kernel)

/-- A loop that has been left stays as it is. -/
theorem run_of_exit
    {p : Pipe}
    (exited : p.relay.exit.isSome = true)
    (wakes : List Wake) :
    p.run sha256 parseDuration wakes = p :=
  Machine.run_induction (motive := fun _ t => t = p) rfl
    (fun _ wake same => by
      rw [same]
      exact if_pos exited) wakes

/--
No whole frame waits for bytes behind it.  From every state of the loop, as many
polls of a side as its buffer has whole frames make the relay take them all, in
order and without a read.
-/
theorem polls_answer_buffer (p : Pipe) (side : Side) :
    (p.run sha256 parseDuration
        (List.replicate (decoder.drain (p.reader side)).values.length
          (.poll side))).relay =
      p.relay.run sha256 parseDuration
        ((decoder.drain (p.reader side)).values.map fun f =>
          input side (.frame f)) := by
  induction buffer : p.reader side using
      Decoder.drain_induction (d := decoder) generalizing p with
  | value buffer f rest decoded inductionHypothesis =>
      rename_i isBuffer
      subst isBuffer
      have longer := Decoder.drain_of_value (d := decoder) decoded
      simp only [longer, List.length_cons, List.replicate_succ, List.map_cons]
      by_cases exited : p.relay.exit.isSome = true
      · rw [run_of_exit sha256 parseDuration exited,
          Relay.run_of_exit sha256 parseDuration exited]
      · have polled : next (p.reader side) [.cancel] =
            ⟨some (.ok (some f)), rest, [.cancel]⟩ := by
          have decodes : decode (p.reader side) = (.ok (some f), rest) :=
            decoded
          rw [next, decodes]
        have stepped :
            p.step sha256 parseDuration (.poll side) =
              { p with
                reader := Function.update p.reader side rest
                relay :=
                  p.relay.step sha256 parseDuration
                    (input side (.frame f)) } := by
          unfold step
          rw [if_neg exited]
          simp only [polled]
          rfl
        have later :=
          inductionHypothesis (p.step sha256 parseDuration (.poll side)) (by
            rw [stepped]
            exact Function.update_self _ _ _)
        have relay :
            (p.step sha256 parseDuration (.poll side)).relay =
              p.relay.step sha256 parseDuration (input side (.frame f)) := by
          rw [stepped]
        rw [relay] at later
        exact later
  | wait buffer waiting =>
      rw [Decoder.drain_of_wait waiting]
      rfl
  | error buffer message failed =>
      rw [Decoder.drain_of_error failed]
      rfl

/-- A reader that reads holds less than one frame. -/
theorem length_of_waits
    {p : Pipe}
    {side : Side}
    (waits : p.waits side = true) :
    (p.reader side).length ≤ MAX_FRAME := by
  have waiting := (waits_iff p side).mp waits
  rcases decode_cases (p.reader side) with
      ⟨-, short | ⟨accepted, short⟩⟩ | ⟨refused, -⟩ | ⟨f, takes, -⟩
  · exact Nat.le_trans (Nat.le_of_lt short) (by decide)
  · exact Nat.le_trans (Nat.le_of_lt_succ short) accepted.2
  · rw [refused] at waiting
    cases waiting
  · rw [takes] at waiting
    cases waiting

/--
The loop buffers a bounded number of bytes.  With reads of at most `limit` bytes
each reader holds at most one frame and one read, and the gate at most its
limit, after every run, with faults or without.
-/
theorem buffers_bounded
    (id : Nat)
    (startup : StartupMetadata)
    (scenarios : List Scenario)
    (limit : Nat)
    (wakes : List Wake)
    (within :
      ∀ side chunk, .read side chunk ∈ wakes → chunk.bytes.length ≤ limit) :
    let p := (start id startup scenarios).run sha256 parseDuration wakes
    (∀ side, (p.reader side).length ≤ MAX_FRAME + limit) ∧
      (p.relay.exit = none →
        heldBytes p.relay.held = p.relay.heldSize ∧
          heldBytes p.relay.held ≤ 1024 * 1024) := by
  intro p
  refine ⟨?_, ?_⟩
  · refine Machine.run_induction
      (motive := fun wakes (p : Pipe) =>
        (∀ side chunk, .read side chunk ∈ wakes →
          chunk.bytes.length ≤ limit) →
        ∀ side, (p.reader side).length ≤ MAX_FRAME + limit) ?_ ?_ wakes within
    · intro _ side
      exact Nat.zero_le _
    · intro before wake inductionHypothesis within other
      have earlier := inductionHypothesis fun side chunk member =>
        within side chunk (List.mem_append_left _ member)
      generalize
        Machine.run (step sha256 parseDuration) (start id startup scenarios)
          before = p at earlier ⊢
      rcases step_moves sha256 parseDuration p wake with
          same | ⟨side, bytes, size, reads, moves⟩
      · rw [same]
        exact earlier other
      · by_cases different : other ≠ side
        · rw [moves.others other different]
          exact earlier other
        · rw [not_not] at different
          subst different
          have few : bytes.length ≤ limit :=
            size limit fun side chunk isWake =>
              within side chunk (by simp [isWake])
          have room : (p.reader other ++ bytes).length ≤ MAX_FRAME + limit := by
            rw [List.length_append]
            by_cases nothing : bytes = []
            · rw [nothing]
              exact earlier other
            · have short := length_of_waits (reads nothing)
              omega
          rcases moves.answers with
              ⟨-, reader⟩ | ⟨f, -, decoded⟩ | ⟨read, -, -, reader⟩
          · rw [reader]
            exact room
          · have split := congrArg List.length (decode_value decoded).1
            rw [List.length_append] at split
            omega
          · rw [reader]
            exact room
  · intro running
    obtain ⟨inputs, refines⟩ :=
      refines_run sha256 parseDuration id startup scenarios wakes
    have transparent :=
      transparent_run sha256 parseDuration id startup scenarios inputs
    rw [← refines.relay] at transparent
    obtain ⟨size, bound⟩ := transparent.size running
    exact ⟨size.symm, size ▸ bound⟩

end

theorem buffers_bounded_splitReads :
    let p :=
      (start 1 default [dropCommit]).run sampleSha256 (fun _ => .ok 0)
        splitReads
    (∀ side, (p.reader side).length ≤ MAX_FRAME + 32) ∧
      (p.relay.exit = none →
        heldBytes p.relay.held = p.relay.heldSize ∧
          heldBytes p.relay.held ≤ 1024 * 1024) :=
  buffers_bounded sampleSha256 (fun _ => .ok 0) 1 default [dropCommit] 32
    splitReads (by
      intro side chunk member
      simp only [splitReads, List.mem_cons, Wake.read.injEq, reduceCtorEq,
        List.not_mem_nil, or_false, false_or] at member
      rcases member with ⟨-, rfl⟩ | ⟨-, rfl⟩ | ⟨-, rfl⟩ <;> decide)

end Pipe

end Pgfault
