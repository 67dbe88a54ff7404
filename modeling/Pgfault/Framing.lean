import Pgfault.Incremental
import Pgfault.Wire

namespace Pgfault

open Incremental

/-!
# Framing

`decode` takes one frame off the front of a buffer.  The length word counts
itself and the body but not the tag, so a frame has one byte more than its
length word says.  `FrameReader.next` decodes, reads when a frame is incomplete,
and may be dropped at the read.
-/

/-- The largest length word `decode` accepts. -/
def MAX_FRAME : Nat :=
  64 * 1024 * 1024

/-- `u32::from_be_bytes`. -/
def fromBeBytes (bytes : Bytes) : Nat :=
  bytes.foldl (fun word byte => word * 256 + byte.toNat) 0

/-- The length word of a buffer, `buf[1..5]`. -/
def lengthWord (buffer : Bytes) : Nat :=
  fromBeBytes ((buffer.drop 1).take 4)

/-- Whether a length word is in the accepted window. -/
def acceptsLength (word : Nat) : Prop :=
  4 ≤ word ∧ word ≤ MAX_FRAME

instance (word : Nat) : Decidable (acceptsLength word) :=
  inferInstanceAs (Decidable (4 ≤ word ∧ word ≤ MAX_FRAME))

/-- Take one frame off a buffer: the answer and the bytes that stay. -/
def decode (buffer : Bytes) : Except String (Option Frame) × Bytes :=
  if buffer.length < 5 then
    (.ok none, buffer)
  else if accepted : acceptsLength (lengthWord buffer) then
    if incomplete : buffer.length < lengthWord buffer + 1 then
      (.ok none, buffer)
    else
      (.ok (some
          { raw := buffer.take (lengthWord buffer + 1)
            header := by
              have lower := accepted.1
              rw [List.length_take]
              omega }),
        buffer.drop (lengthWord buffer + 1))
  else
    (.error "invalid PostgreSQL frame length", buffer)

/-! ## Length words -/

/-- Four bytes spell a 32-bit word. -/
theorem fromBeBytes_four (a b c d : UInt8) :
    fromBeBytes [a, b, c, d] =
      a.toNat * 2 ^ 24 + b.toNat * 2 ^ 16 + c.toNat * 2 ^ 8 + d.toNat := by
  simp only [fromBeBytes, List.foldl_cons, List.foldl_nil]
  omega

/-- Reading a word back. -/
theorem fromBeBytes_beBytes
    {word : Nat}
    (fits : word < 2 ^ 32) :
    fromBeBytes (beBytes word) = word := by
  rw [beBytes, fromBeBytes_four]
  simp only [UInt8.toNat_ofNat']
  omega

/-- Four bytes are the bytes of the word they spell. -/
theorem beBytes_fromBeBytes
    {bytes : Bytes}
    (four : bytes.length = 4) :
    beBytes (fromBeBytes bytes) = bytes := by
  match bytes, four with
  | [a, b, c, d], _ =>
      have first := a.toNat_lt
      have second := b.toNat_lt
      have third := c.toNat_lt
      have fourth := d.toNat_lt
      rw [fromBeBytes_four, beBytes]
      simp only [List.cons.injEq, ← UInt8.toNat_inj, UInt8.toNat_ofNat',
        and_true]
      omega

/-- The length word of a buffer does not look behind the header. -/
theorem lengthWord_append
    {buffer : Bytes}
    (header : 5 ≤ buffer.length)
    (more : Bytes) :
    lengthWord (buffer ++ more) = lengthWord buffer := by
  unfold lengthWord
  rw [List.drop_append_of_le_length (by omega),
    List.take_append_of_le_length (by rw [List.length_drop]; omega)]

/-- The length word of a built frame. -/
theorem lengthWord_frame
    {tag : UInt8}
    {body : Bytes}
    (fits : body.length ≤ MAX_FRAME - 4) :
    lengthWord (frame tag body).raw = body.length + 4 := by
  unfold MAX_FRAME at fits
  have read :
      lengthWord (frame tag body).raw =
        fromBeBytes (beBytes ((body.length + 4) % 2 ^ 32)) := rfl
  have small : (body.length + 4) % 2 ^ 32 = body.length + 4 :=
    Nat.mod_eq_of_lt (by omega)
  rw [read, small]
  exact fromBeBytes_beBytes (by omega)

/-- A built frame has five bytes in front of its body. -/
@[simp] theorem length_frame (tag : UInt8) (body : Bytes) :
    (frame tag body).raw.length = body.length + 5 := by
  simp [frame, beBytes]

/-! ## One call of `decode` -/

/-- `decode` waits for a whole frame. -/
theorem decode_waits
    {buffer : Bytes}
    (waits :
      buffer.length < 5 ∨
        acceptsLength (lengthWord buffer) ∧
          buffer.length < lengthWord buffer + 1) :
    decode buffer = (.ok none, buffer) := by
  unfold decode
  by_cases short : buffer.length < 5
  · rw [if_pos short]
  · obtain ⟨accepted, incomplete⟩ := waits.resolve_left short
    rw [if_neg short, dif_pos accepted, dif_pos incomplete]

/-- `decode` refuses a length word outside its window. -/
theorem decode_refuses
    {buffer : Bytes}
    (header : 5 ≤ buffer.length)
    (refused : ¬ acceptsLength (lengthWord buffer)) :
    decode buffer = (.error "invalid PostgreSQL frame length", buffer) := by
  unfold decode
  rw [if_neg (Nat.not_lt.mpr header), dif_neg refused]

/-- `decode` takes a whole frame off. -/
theorem decode_takes
    {buffer : Bytes}
    (accepted : acceptsLength (lengthWord buffer))
    (complete : lengthWord buffer + 1 ≤ buffer.length) :
    ∃ f : Frame,
      decode buffer =
          (.ok (some f), buffer.drop (lengthWord buffer + 1)) ∧
        f.raw = buffer.take (lengthWord buffer + 1) := by
  have lower := accepted.1
  unfold decode
  rw [if_neg (by omega), dif_pos accepted, dif_neg (by omega)]
  exact ⟨_, rfl, rfl⟩

/-- What `decode` has done, by the header and the length of the buffer. -/
theorem decode_cases (buffer : Bytes) :
    (decode buffer = (.ok none, buffer) ∧
        (buffer.length < 5 ∨
          acceptsLength (lengthWord buffer) ∧
            buffer.length < lengthWord buffer + 1)) ∨
      (decode buffer = (.error "invalid PostgreSQL frame length", buffer) ∧
        5 ≤ buffer.length ∧ ¬ acceptsLength (lengthWord buffer)) ∨
      ∃ f : Frame,
        decode buffer =
            (.ok (some f), buffer.drop (lengthWord buffer + 1)) ∧
          f.raw = buffer.take (lengthWord buffer + 1) ∧
          acceptsLength (lengthWord buffer) ∧
          lengthWord buffer + 1 ≤ buffer.length := by
  by_cases short : buffer.length < 5
  · exact Or.inl ⟨decode_waits (Or.inl short), Or.inl short⟩
  · by_cases accepted : acceptsLength (lengthWord buffer)
    · by_cases incomplete : buffer.length < lengthWord buffer + 1
      · exact Or.inl ⟨decode_waits (Or.inr ⟨accepted, incomplete⟩),
          Or.inr ⟨accepted, incomplete⟩⟩
      · obtain ⟨f, taken, raw⟩ :=
          decode_takes accepted (Nat.le_of_not_lt incomplete)
        exact Or.inr (Or.inr
          ⟨f, taken, raw, accepted, Nat.le_of_not_lt incomplete⟩)
    · exact Or.inr (Or.inl
        ⟨decode_refuses (Nat.le_of_not_lt short) accepted,
          Nat.le_of_not_lt short, accepted⟩)

/-- A decoded frame, its bytes and the length word they start with. -/
theorem decode_value
    {buffer rest : Bytes}
    {f : Frame}
    (taken : decode buffer = (.ok (some f), rest)) :
    f.raw ++ rest = buffer ∧ f.raw.length = lengthWord buffer + 1 ∧
      acceptsLength (lengthWord buffer) := by
  rcases decode_cases buffer with
      ⟨waits, -⟩ | ⟨refuses, -⟩ | ⟨g, takes, raw, accepted, complete⟩
  · rw [waits] at taken
    cases taken
  · rw [refuses] at taken
    cases taken
  · rw [takes] at taken
    cases taken
    refine ⟨?_, ?_, accepted⟩
    · rw [raw, List.take_append_drop]
    · rw [raw, List.length_take]
      omega

/-- A decoded frame survives more bytes. -/
theorem decode_append
    {buffer rest : Bytes}
    {f : Frame}
    (taken : decode buffer = (.ok (some f), rest))
    (more : Bytes) :
    decode (buffer ++ more) = (.ok (some f), rest ++ more) := by
  obtain ⟨split, length, accepted⟩ := decode_value taken
  have header : 5 ≤ buffer.length := by
    rw [← split, List.length_append]
    exact Nat.le_add_right_of_le f.header
  have sameWord := lengthWord_append header more
  have complete : lengthWord (buffer ++ more) + 1 ≤ (buffer ++ more).length := by
    rw [sameWord, ← length, ← split, List.length_append, List.length_append]
    omega
  obtain ⟨g, takes, raw⟩ :=
    decode_takes (by rw [sameWord]; exact accepted) complete
  -- Both frames are the first bytes of one stream, in the same number.
  have shape : buffer ++ more = f.raw ++ (rest ++ more) := by
    rw [← split, List.append_assoc]
  have sameRaw : g.raw = f.raw := by
    rw [raw, sameWord, ← length, shape, List.take_left]
  rw [takes, Frame.ext sameRaw, sameWord, ← length, shape, List.drop_left]

/-- `decode` as an incremental decoder. -/
def decoder : Decoder UInt8 Frame String where
  attempt := decode
  raw := Frame.raw
  takes := by
    intro buffer f rest taken
    refine ⟨(decode_value taken).1, ?_⟩
    intro empty
    have header := f.header
    rw [empty] at header
    simp at header
  waits := by
    intro buffer rest waiting
    rcases decode_cases buffer with
        ⟨waits, -⟩ | ⟨refuses, -⟩ | ⟨f, takes, -⟩
    · rw [waits] at waiting
      cases waiting
      rfl
    · rw [refuses] at waiting
      cases waiting
    · rw [takes] at waiting
      cases waiting
  fails := by
    intro buffer message rest failed
    rcases decode_cases buffer with
        ⟨waits, -⟩ | ⟨refuses, -⟩ | ⟨f, takes, -⟩
    · rw [waits] at failed
      cases failed
    · rw [refuses] at failed
      cases failed
      rfl
    · rw [takes] at failed
      cases failed
  value_append := fun more taken => decode_append taken more
  error_append := by
    intro buffer message rest more failed
    rcases decode_cases buffer with
        ⟨waits, -⟩ | ⟨refuses, header, refused⟩ | ⟨f, takes, -⟩
    · rw [waits] at failed
      cases failed
    · rw [refuses] at failed
      cases failed
      refine decode_refuses ?_ ?_
      · rw [List.length_append]
        exact Nat.le_add_right_of_le header
      · rw [lengthWord_append header]
        exact refused
    · rw [takes] at failed
      cases failed

/-! ## The grammar of a stream -/

/-- What a stream of built frames is made of. -/
abbrev Part := UInt8 × Bytes

/-- The frame of one part. -/
def Part.frame (part : Part) : Frame :=
  Pgfault.frame part.1 part.2

/-- Bodies that fit into a frame. -/
def Fits (parts : List Part) : Prop :=
  ∀ part ∈ parts, part.2.length ≤ MAX_FRAME - 4

/-- The bytes of built frames, one behind the other. -/
def concatenation (parts : List Part) : Bytes :=
  parts.flatMap fun part => part.frame.raw

/-- `decode` takes a built frame off. -/
theorem decode_frame
    {part : Part}
    (fits : part.2.length ≤ MAX_FRAME - 4)
    (rest : Bytes) :
    decode (part.frame.raw ++ rest) = (.ok (some part.frame), rest) := by
  have word : lengthWord part.frame.raw = part.2.length + 4 :=
    lengthWord_frame fits
  have length : part.frame.raw.length = part.2.length + 5 :=
    length_frame part.1 part.2
  have accepted : acceptsLength (lengthWord part.frame.raw) := by
    rw [word]
    unfold acceptsLength MAX_FRAME at *
    omega
  obtain ⟨f, takes, raw⟩ :=
    decode_takes accepted (by rw [word, length])
  have whole : lengthWord part.frame.raw + 1 = part.frame.raw.length := by
    rw [word, length]
  rw [whole, List.take_length] at raw
  rw [whole, List.drop_length] at takes
  rw [Frame.ext raw] at takes
  exact decode_append takes rest

/-- A decoded frame is the one built from its tag and its body. -/
theorem frame_of_decode
    {buffer rest : Bytes}
    {f : Frame}
    (taken : decode buffer = (.ok (some f), rest)) :
    Part.frame (f.tag, f.body) = f ∧ f.body.length ≤ MAX_FRAME - 4 := by
  obtain ⟨split, length, accepted⟩ := decode_value taken
  have bodyLength : f.body.length = lengthWord buffer - 4 := by
    unfold Frame.body
    rw [List.length_drop, length]
    omega
  obtain ⟨lower, upper⟩ := accepted
  refine ⟨?_, by omega⟩
  have ownWord : lengthWord f.raw = f.body.length + 4 := by
    rw [← lengthWord_append f.header rest, split, bodyLength]
    omega
  have small : (f.body.length + 4) % 2 ^ 32 = f.body.length + 4 := by
    unfold MAX_FRAME at upper
    exact Nat.mod_eq_of_lt (by omega)
  have wordBytes :
      beBytes ((f.body.length + 4) % 2 ^ 32) = (f.raw.drop 1).take 4 := by
    rw [small, ← ownWord]
    refine beBytes_fromBeBytes ?_
    have header := f.header
    rw [List.length_take, List.length_drop]
    omega
  have raw : (Part.frame (f.tag, f.body)).raw = f.raw := by
    have built :
        (Part.frame (f.tag, f.body)).raw =
          f.tag :: (beBytes ((f.body.length + 4) % 2 ^ 32) ++ f.body) := rfl
    rw [built, wordBytes]
    have body : f.body = (f.raw.drop 1).drop 4 := by
      rw [Frame.body, List.drop_drop]
    rw [body, List.take_append_drop, Frame.tag, List.get_eq_getElem,
      List.getElem_cons_drop, List.drop_zero]
  exact Frame.ext raw

/-- A stream of built frames is taken apart into them. -/
theorem drain_concatenation
    {parts : List Part}
    (fits : Fits parts) :
    decoder.drain (concatenation parts) =
      ⟨parts.map Part.frame, none, []⟩ := by
  induction parts with
  | nil =>
      have waiting : decode [] = (.ok none, []) :=
        decode_waits (Or.inl (by decide))
      exact Decoder.drain_of_wait waiting
  | cons part rest inductionHypothesis =>
      have restFits : Fits rest :=
        fun other member => fits other (List.mem_cons_of_mem part member)
      have taken :
          decoder.attempt (concatenation (part :: rest)) =
            (.ok (some part.frame), concatenation rest) :=
        decode_frame (fits part (by simp)) (concatenation rest)
      rw [Decoder.drain_of_value taken, inductionHypothesis restFits]
      rfl

/-- A stream that leaves nothing behind is one of built frames. -/
theorem exists_parts_of_drain
    {stream : Bytes}
    (noProblem : (decoder.drain stream).problem = none)
    (nothingLeft : (decoder.drain stream).rest = []) :
    ∃ parts, Fits parts ∧ stream = concatenation parts := by
  induction stream using Decoder.drain_induction (d := decoder) with
  | value buffer f rest taken inductionHypothesis =>
      rw [Decoder.drain_of_value taken] at noProblem nothingLeft
      obtain ⟨parts, fits, shape⟩ :=
        inductionHypothesis noProblem nothingLeft
      obtain ⟨built, bounded⟩ := frame_of_decode taken
      refine ⟨(f.tag, f.body) :: parts, ?_, ?_⟩
      · intro part member
        rcases List.mem_cons.mp member with isFirst | inRest
        · rw [isFirst]
          exact bounded
        · exact fits part inRest
      · rw [← (decode_value taken).1, shape, ← built]
        rfl
  | wait buffer waiting =>
      rw [Decoder.drain_of_wait waiting] at nothingLeft
      refine ⟨[], ?_, nothingLeft⟩
      intro part member
      cases member
  | error buffer message failed =>
      rw [Decoder.drain_of_error failed] at noProblem
      cases noProblem

/-- Tag and body of a part survive its frame. -/
theorem part_frame_injective (part : Part) :
    (part.frame.tag, part.frame.body) = part := rfl

/--
Repeated decoding accepts exactly the concatenations of built frames whose
bodies fit, and gives back those frames; there is one way to write such a stream.
`decode` fails exactly at a length word outside its window and then leaves the
buffer alone, and a decoded frame has its five header bytes.
-/
theorem framing_grammar :
    (∀ stream : Bytes,
      ((decoder.drain stream).problem = none ∧
          (decoder.drain stream).rest = []) ↔
        ∃ parts, Fits parts ∧ stream = concatenation parts) ∧
      (∀ parts : List Part,
        Fits parts →
        decoder.drain (concatenation parts) =
            ⟨parts.map Part.frame, none, []⟩ ∧
          (parts.map Part.frame).map (fun f => (f.tag, f.body)) = parts) ∧
      (∀ parts others : List Part,
        Fits parts → Fits others →
        concatenation parts = concatenation others → parts = others) ∧
      (∀ buffer : Bytes,
        (∃ message, (decode buffer).1 = .error message) ↔
          5 ≤ buffer.length ∧
            (lengthWord buffer < 4 ∨ MAX_FRAME < lengthWord buffer)) ∧
      (∀ (buffer : Bytes) (message : String),
        (decode buffer).1 = .error message → (decode buffer).2 = buffer) ∧
      (∀ (buffer : Bytes) (f : Frame),
        (decode buffer).1 = .ok (some f) →
        f.raw = buffer.take (lengthWord buffer + 1) ∧
          f.raw.length = lengthWord buffer + 1 ∧ 5 ≤ f.raw.length) := by
  have readBack (parts : List Part) :
      (parts.map Part.frame).map (fun f => (f.tag, f.body)) = parts := by
    rw [List.map_map]
    exact List.map_id'' part_frame_injective parts
  refine ⟨?_, ?_, ?_, ?_, ?_, ?_⟩
  · intro stream
    constructor
    · rintro ⟨noProblem, nothingLeft⟩
      exact exists_parts_of_drain noProblem nothingLeft
    · rintro ⟨parts, fits, rfl⟩
      rw [drain_concatenation fits]
      exact ⟨rfl, rfl⟩
  · intro parts fits
    exact ⟨drain_concatenation fits, readBack parts⟩
  · intro parts others fits othersFit same
    have frames : parts.map Part.frame = others.map Part.frame := by
      have drained := drain_concatenation fits
      rw [same, drain_concatenation othersFit] at drained
      exact (congrArg Drained.values drained).symm
    rw [← readBack parts, frames, readBack others]
  · intro buffer
    have window :
        ¬ acceptsLength (lengthWord buffer) ↔
          lengthWord buffer < 4 ∨ MAX_FRAME < lengthWord buffer := by
      unfold acceptsLength
      omega
    rw [← window]
    rcases decode_cases buffer with
        ⟨waits, cause⟩ | ⟨refuses, header, refused⟩ |
          ⟨f, takes, -, accepted, -⟩
    · rw [waits]
      constructor
      · rintro ⟨message, failed⟩
        cases failed
      · rintro ⟨header, refused⟩
        rcases cause with short | ⟨accepted, -⟩
        · omega
        · exact absurd accepted refused
    · rw [refuses]
      exact ⟨fun _ => ⟨header, refused⟩, fun _ => ⟨_, rfl⟩⟩
    · rw [takes]
      constructor
      · rintro ⟨message, failed⟩
        cases failed
      · rintro ⟨-, refused⟩
        exact absurd accepted refused
  · intro buffer message failed
    exact decoder.fails (Prod.ext failed rfl)
  · intro buffer f taken
    obtain ⟨split, length, -⟩ := decode_value (Prod.ext taken rfl)
    refine ⟨?_, length, f.header⟩
    rw [← length]
    conv_rhs => rw [← split]
    exact List.take_left.symm

/-! ## Reading frames from a socket -/

/-- Bytes one `read_buf` returns; reading none means the end of the stream. -/
structure Chunk where
  bytes : Bytes
  nonempty : bytes ≠ []

/-- What `next` meets at its read: some bytes, or the drop of its future. -/
inductive Poll where
  | chunk (read : Chunk)
  | cancel

/-- What one call of `next` leaves behind. -/
structure Next where
  /-- The answer; a dropped call gives none. -/
  answer : Option (Except String (Option Frame))
  buffer : Bytes
  /-- What the socket still has in store. -/
  polls : List Poll

/--
`FrameReader::next`: decode, and read whenever a frame is incomplete.  The stream
ends behind the last poll.
-/
def next (buffer : Bytes) (polls : List Poll) : Next :=
  match decode buffer with
  | (.error message, buffer) => ⟨some (.error message), buffer, polls⟩
  | (.ok (some f), buffer) => ⟨some (.ok (some f)), buffer, polls⟩
  | (.ok none, buffer) =>
      match polls with
      | [] =>
          if buffer.isEmpty then
            ⟨some (.ok none), buffer, []⟩
          else
            ⟨some (.error "EOF inside PostgreSQL frame"), buffer, []⟩
      | .cancel :: later => ⟨none, buffer, later⟩
      | .chunk read :: later => next (buffer ++ read.bytes) later

/-- A reader that is called again and again. -/
structure Reading where
  buffer : Bytes := []
  frames : List Frame := []
  polls : List Poll
  /-- The answer behind the last frame: the clean end, or an error. -/
  outcome : Option (Except String Unit) := none

namespace Reading

/-- Keep what a call of `next` returned. -/
def take (r : Reading) (returned : Next) : Reading :=
  let moved :=
    { r with buffer := returned.buffer, polls := returned.polls }
  match returned.answer with
  | none => moved
  | some (.ok (some f)) => { moved with frames := r.frames ++ [f] }
  | some (.ok none) => { moved with outcome := some (.ok ()) }
  | some (.error message) => { moved with outcome := some (.error message) }

/-- Call `next` once more, unless it has ended. -/
def call (r : Reading) : Reading :=
  if r.outcome.isSome then
    r
  else
    r.take (Pgfault.next r.buffer r.polls)

/-- A fresh reader on a socket. -/
def start (polls : List Poll) : Reading where
  polls := polls

/-- The reader after a number of calls. -/
def calls (r : Reading) : Nat → Reading
  | 0 => r
  | count + 1 => (r.calls count).call

/-- The bytes some polls deliver. -/
def bytesOf (polls : List Poll) : Bytes :=
  polls.flatMap fun
    | .chunk read => read.bytes
    | .cancel => []

/-- A stream delivered by one read. -/
def atOnce (stream : Bytes) : List Poll :=
  if nonempty : stream ≠ [] then [.chunk ⟨stream, nonempty⟩] else []

/-- The outcome a stream deserves: what `decode` says where it stops. -/
def deserved (stream : Bytes) : Except String Unit :=
  match (decoder.drain stream).problem with
  | some message => .error message
  | none =>
      if (decoder.drain stream).rest.isEmpty then
        .ok ()
      else
        .error "EOF inside PostgreSQL frame"

@[simp] theorem bytesOf_append (earlier later : List Poll) :
    bytesOf (earlier ++ later) = bytesOf earlier ++ bytesOf later :=
  List.flatMap_append

/-- The ways one call of `next` can end, by what it has read. -/
inductive Returns (buffer : Bytes) (polls : List Poll) : Next → Prop where
  | frame
      {read rest : List Poll}
      {f : Frame}
      {left : Bytes}
      (split : polls = read ++ rest)
      (decoded : decode (buffer ++ bytesOf read) = (.ok (some f), left)) :
      Returns buffer polls ⟨some (.ok (some f)), left, rest⟩
  | invalid
      {read rest : List Poll}
      {message : String}
      {left : Bytes}
      (split : polls = read ++ rest)
      (decoded : decode (buffer ++ bytesOf read) = (.error message, left)) :
      Returns buffer polls ⟨some (.error message), left, rest⟩
  | ended
      {left : Bytes}
      (decoded : decode (buffer ++ bytesOf polls) = (.ok none, left))
      (clean : left = []) :
      Returns buffer polls ⟨some (.ok none), left, []⟩
  | inside
      {left : Bytes}
      (decoded : decode (buffer ++ bytesOf polls) = (.ok none, left))
      (torn : left ≠ []) :
      Returns buffer polls
        ⟨some (.error "EOF inside PostgreSQL frame"), left, []⟩
  | dropped
      {read rest : List Poll}
      {left : Bytes}
      (split : polls = read ++ .cancel :: rest)
      (decoded : decode (buffer ++ bytesOf read) = (.ok none, left)) :
      Returns buffer polls ⟨none, left, rest⟩

/-- One more chunk in front of what a call reads. -/
theorem Returns.chunk
    {buffer : Bytes}
    {read : Chunk}
    {polls : List Poll}
    {returned : Next}
    (returns : Returns (buffer ++ read.bytes) polls returned) :
    Returns buffer (.chunk read :: polls) returned := by
  have joined (more : List Poll) :
      buffer ++ read.bytes ++ bytesOf more =
        buffer ++ bytesOf (.chunk read :: more) :=
    List.append_assoc _ _ _
  cases returns with
  | frame split decoded =>
      rw [joined] at decoded
      exact .frame (by rw [split]; rfl) decoded
  | invalid split decoded =>
      rw [joined] at decoded
      exact .invalid (by rw [split]; rfl) decoded
  | ended decoded clean =>
      rw [joined] at decoded
      exact .ended decoded clean
  | inside decoded torn =>
      rw [joined] at decoded
      exact .inside decoded torn
  | dropped split decoded =>
      rw [joined] at decoded
      exact .dropped (by rw [split]; rfl) decoded

/-- Every call of `next` ends in one of these ways. -/
theorem next_returns (buffer : Bytes) (polls : List Poll) :
    Returns buffer polls (Pgfault.next buffer polls) := by
  have unread (buffer : Bytes) : buffer ++ bytesOf [] = buffer :=
    List.append_nil buffer
  fun_induction Pgfault.next buffer polls with
  | case1 polls buffer message left decoded =>
      exact .invalid (List.nil_append polls).symm (by rw [unread, decoded])
  | case2 polls buffer f left decoded =>
      exact .frame (List.nil_append polls).symm (by rw [unread, decoded])
  | case3 buffer left decoded clean =>
      exact .ended (by rw [unread, decoded]) (List.isEmpty_iff.mp clean)
  | case4 buffer left decoded torn =>
      exact .inside (by rw [unread, decoded])
        (mt List.isEmpty_iff.mpr torn)
  | case5 buffer left decoded later =>
      exact .dropped (List.nil_append (Poll.cancel :: later)).symm
        (by rw [unread, decoded])
  | case6 buffer left decoded read later inductionHypothesis =>
      have stays : left = buffer := decoder.waits decoded
      subst stays
      exact inductionHypothesis.chunk

/-! ## Whole streams -/

/-- A reader against the stream its polls deliver. -/
structure Sound (polls : List Poll) (r : Reading) : Prop where
  /-- The returned frames and the buffer are what has been read. -/
  consumed :
    ∃ read,
      polls = read ++ r.polls ∧
        r.frames.flatMap Frame.raw ++ r.buffer = bytesOf read
  /-- What is still to come continues the returned frames. -/
  running :
    r.outcome = none →
    decoder.drain (bytesOf polls) =
      { decoder.drain (r.buffer ++ bytesOf r.polls) with
        values := r.frames ++
          (decoder.drain (r.buffer ++ bytesOf r.polls)).values }
  /-- Behind the outcome there is nothing to come. -/
  finished :
    ∀ outcome,
      r.outcome = some outcome →
      r.frames = (decoder.drain (bytesOf polls)).values ∧
        outcome = deserved (bytesOf polls)

theorem sound_start (polls : List Poll) :
    Sound polls (start polls) where
  consumed := ⟨[], rfl, rfl⟩
  running := fun _ => rfl
  finished := by
    intro outcome ended
    cases ended

/-- Reading on adds to what has been read. -/
theorem Sound.read_on
    {polls read rest : List Poll}
    {r : Reading}
    (sound : Sound polls r)
    (split : r.polls = read ++ rest) :
    ∃ all,
      polls = all ++ rest ∧
        r.frames.flatMap Frame.raw ++ (r.buffer ++ bytesOf read) =
          bytesOf all := by
  obtain ⟨before, shape, bytes⟩ := sound.consumed
  refine ⟨before ++ read, ?_, ?_⟩
  · rw [shape, split, List.append_assoc]
  · rw [bytesOf_append, ← bytes, List.append_assoc]

/-- A returned frame keeps the reader sound. -/
theorem Sound.frame
    {polls read rest : List Poll}
    {r : Reading}
    {f : Frame}
    {left : Bytes}
    (sound : Sound polls r)
    (running : r.outcome = none)
    (split : r.polls = read ++ rest)
    (decoded : decode (r.buffer ++ bytesOf read) = (.ok (some f), left)) :
    Sound polls
      { r with frames := r.frames ++ [f], buffer := left, polls := rest } := by
  obtain ⟨all, shape, bytes⟩ := sound.read_on split
  have parts := (decode_value decoded).1
  have taken := decoder.value_append (bytesOf rest) decoded
  have continued := sound.running running
  rw [split, bytesOf_append, ← List.append_assoc,
    Decoder.drain_of_value taken] at continued
  refine ⟨⟨all, shape, ?_⟩, ?_, ?_⟩
  · rw [← bytes, ← parts]
    simp
  · intro _
    rw [continued]
    simp
  · intro outcome ended
    rw [running] at ended
    cases ended

/-- A final answer keeps the reader sound if it is the deserved one. -/
theorem Sound.stop
    {polls read rest : List Poll}
    {r : Reading}
    {left : Bytes}
    {outcome : Except String Unit}
    (sound : Sound polls r)
    (running : r.outcome = none)
    (split : r.polls = read ++ rest)
    (stays : left = r.buffer ++ bytesOf read)
    (nothing : (decoder.drain (r.buffer ++ bytesOf r.polls)).values = [])
    (fair : outcome = deserved (r.buffer ++ bytesOf r.polls)) :
    Sound polls
      { r with buffer := left, polls := rest, outcome := some outcome } := by
  obtain ⟨all, shape, bytes⟩ := sound.read_on split
  have continued := sound.running running
  refine ⟨⟨all, shape, by rw [← bytes, stays]⟩, ?_, ?_⟩
  · intro still
    cases still
  · intro given ended
    cases ended
    refine ⟨?_, ?_⟩
    · rw [continued, nothing, List.append_nil]
    · rw [fair, deserved, deserved, continued]

/-- A dropped call keeps the reader sound. -/
theorem Sound.dropped
    {polls read rest : List Poll}
    {r : Reading}
    {left : Bytes}
    (sound : Sound polls r)
    (running : r.outcome = none)
    (split : r.polls = read ++ .cancel :: rest)
    (stays : left = r.buffer ++ bytesOf read) :
    Sound polls { r with buffer := left, polls := rest } := by
  have dropsOne : r.polls = (read ++ [.cancel]) ++ rest := by
    rw [split, List.append_assoc]
    rfl
  have same : bytesOf (read ++ [.cancel]) = bytesOf read := by
    rw [bytesOf_append]
    exact List.append_nil _
  obtain ⟨all, shape, bytes⟩ := sound.read_on dropsOne
  have continued := sound.running running
  refine ⟨⟨all, shape, by rw [← bytes, same, stays]⟩, ?_, ?_⟩
  · intro _
    rw [continued, dropsOne, bytesOf_append, same, stays, List.append_assoc]
  · intro outcome ended
    rw [running] at ended
    cases ended

/-- Whatever `next` returns keeps the reader sound. -/
theorem Sound.take
    {polls : List Poll}
    {r : Reading}
    {returned : Next}
    (sound : Sound polls r)
    (running : r.outcome = none)
    (returns : Returns r.buffer r.polls returned) :
    Sound polls (r.take returned) := by
  cases returns with
  | frame split decoded =>
      exact sound.frame running split decoded
  | @invalid read rest message left split decoded =>
      have refused := decoder.error_append (bytesOf rest) decoded
      rw [List.append_assoc, ← bytesOf_append, ← split] at refused
      have drained := Decoder.drain_of_error refused
      exact sound.stop running split (decoder.fails decoded)
        (by rw [drained]) (by simp only [deserved, drained])
  | @ended left decoded clean =>
      have drained := Decoder.drain_of_wait (d := decoder) decoded
      have stays : left = r.buffer ++ bytesOf r.polls :=
        decoder.waits decoded
      refine sound.stop running (List.append_nil r.polls).symm stays
        (by rw [drained]) ?_
      rw [deserved, drained]
      simp [← stays, clean]
  | @inside left decoded torn =>
      have drained := Decoder.drain_of_wait (d := decoder) decoded
      have stays : left = r.buffer ++ bytesOf r.polls :=
        decoder.waits decoded
      refine sound.stop running (List.append_nil r.polls).symm stays
        (by rw [drained]) ?_
      rw [deserved, drained]
      simp [← stays, torn]
  | dropped split decoded =>
      exact sound.dropped running split (decoder.waits decoded)

theorem Sound.call
    {polls : List Poll}
    {r : Reading}
    (sound : Sound polls r) :
    Sound polls r.call := by
  unfold Reading.call
  cases running : r.outcome with
  | some outcome =>
      exact sound
  | none =>
      exact sound.take running (next_returns r.buffer r.polls)

/-- Every number of calls keeps the reader sound. -/
theorem sound_calls (polls : List Poll) (count : Nat) :
    Sound polls ((start polls).calls count) := by
  induction count with
  | zero =>
      exact sound_start polls
  | succ count inductionHypothesis =>
      exact inductionHypothesis.call

/-- What a reader can still go through: its polls and its unread bytes. -/
def remaining (r : Reading) : Nat :=
  r.polls.length + (r.buffer ++ bytesOf r.polls).length

/-- Every call ends the reader or comes closer to the end. -/
theorem remaining_take
    {r : Reading}
    {returned : Next}
    (returns : Returns r.buffer r.polls returned) :
    (r.take returned).outcome.isSome = true ∨
      (r.take returned).remaining < r.remaining := by
  cases returns with
  | @frame read rest f left split decoded =>
      right
      have parts := congrArg List.length (decode_value decoded).1
      have header := f.header
      simp only [remaining, take, split, bytesOf_append, List.length_append]
        at parts ⊢
      omega
  | invalid =>
      exact Or.inl rfl
  | ended =>
      exact Or.inl rfl
  | inside =>
      exact Or.inl rfl
  | @dropped read rest left split decoded =>
      right
      have stays : left = r.buffer ++ bytesOf read := decoder.waits decoded
      have nothing : bytesOf (.cancel :: rest) = bytesOf rest := rfl
      simp only [remaining, take, split, stays, bytesOf_append, nothing,
        List.length_append, List.length_cons]
      omega

/-- A reader that is called often enough ends. -/
theorem exists_outcome (r : Reading) :
    ∃ count, (r.calls count).outcome.isSome = true := by
  have closer (count : Nat) :
      (r.calls count).outcome.isSome = true ∨
        (r.calls count).remaining + count ≤ r.remaining := by
    induction count with
    | zero =>
        exact Or.inr (Nat.le_refl _)
    | succ count inductionHypothesis =>
        rcases inductionHypothesis with ended | before
        · left
          simp only [calls, call, ended, if_true]
        · cases running : (r.calls count).outcome with
          | some outcome =>
              left
              simp only [calls, call, running, Option.isSome_some, if_true]
          | none =>
              have called :
                  r.calls (count + 1) =
                    (r.calls count).take
                      (Pgfault.next (r.calls count).buffer
                        (r.calls count).polls) := by
                simp [calls, call, running]
              rw [called]
              rcases remaining_take (next_returns (r.calls count).buffer
                  (r.calls count).polls) with ended | less
              · exact Or.inl ended
              · right
                omega
  refine ⟨r.remaining + 1, ?_⟩
  rcases closer (r.remaining + 1) with ended | tooMany
  · exact ended
  · omega

/-- One read delivers the whole stream. -/
theorem bytesOf_atOnce (stream : Bytes) :
    bytesOf (atOnce stream) = stream := by
  unfold atOnce
  by_cases nonempty : stream ≠ []
  · rw [dif_pos nonempty]
    exact List.append_nil stream
  · rw [dif_neg nonempty, not_not.mp nonempty]
    rfl

/--
However a stream is cut into reads and wherever calls are dropped, the reader
ends, with the frames and the outcome it has when one read delivers everything;
and at every point its frames and its buffer are the bytes read so far.
-/
theorem chunking_independent (polls : List Poll) :
    (∃ count, ((start polls).calls count).outcome.isSome = true) ∧
      (∀ count other : Nat,
        ((start polls).calls count).outcome.isSome = true →
        ((start (atOnce (bytesOf polls))).calls other).outcome.isSome = true →
        ((start polls).calls count).frames =
            ((start (atOnce (bytesOf polls))).calls other).frames ∧
          ((start polls).calls count).outcome =
            ((start (atOnce (bytesOf polls))).calls other).outcome) ∧
      (∀ count : Nat,
        ∃ read,
          polls = read ++ ((start polls).calls count).polls ∧
            ((start polls).calls count).frames.flatMap Frame.raw ++
                ((start polls).calls count).buffer =
              bytesOf read) := by
  refine ⟨exists_outcome (start polls), ?_, ?_⟩
  · intro count other ended endedToo
    have cut := sound_calls polls count
    have whole := sound_calls (atOnce (bytesOf polls)) other
    obtain ⟨outcome, isOutcome⟩ := Option.isSome_iff_exists.mp ended
    obtain ⟨outcome', isOutcome'⟩ := Option.isSome_iff_exists.mp endedToo
    obtain ⟨frames, fair⟩ := cut.finished outcome isOutcome
    obtain ⟨frames', fair'⟩ := whole.finished outcome' isOutcome'
    rw [bytesOf_atOnce] at frames' fair'
    refine ⟨frames.trans frames'.symm, ?_⟩
    rw [isOutcome, isOutcome', fair, fair']
  · intro count
    exact (sound_calls polls count).consumed

end Reading

end Pgfault
