import Mathlib.Algebra.Ring.Nat
import Mathlib.Data.List.Basic

namespace Pgfault

/-!
# PostgreSQL frames

A frame is one tag byte, a big-endian length word, and a body.  The proxy
forwards the raw bytes and reads only the tag and the body, so a frame keeps
its bytes and carries the proof that the five header bytes are there.

The two directions reuse tag bytes for different messages.  `FrontendTag` and
`BackendTag` name the messages each direction can carry.
-/

/-- A Rust byte slice or byte vector. -/
abbrev Bytes := List UInt8

/-- The bytes of an ASCII literal, as in `b"application_name"`. -/
def ascii (literal : String) : Bytes :=
  literal.toList.map fun char => UInt8.ofNat char.toNat

/-- A framed message: its raw bytes, with at least the five header bytes. -/
@[ext] structure Frame where
  raw : Bytes
  header : 5 ≤ raw.length
  deriving DecidableEq

namespace Frame

/-- The message tag, the first byte of the frame. -/
def tag (f : Frame) : UInt8 :=
  f.raw.get ⟨0, Nat.lt_of_lt_of_le (by decide) f.header⟩

/-- The message body, everything behind the five header bytes. -/
def body (f : Frame) : Bytes :=
  f.raw.drop 5

end Frame

/-- Big-endian bytes of a 32-bit length word. -/
def beBytes (word : Nat) : Bytes :=
  [UInt8.ofNat (word / 2 ^ 24), UInt8.ofNat (word / 2 ^ 16),
    UInt8.ofNat (word / 2 ^ 8), UInt8.ofNat word]

/-- Build a frame from its tag and body. -/
def frame (tag : UInt8) (body : Bytes) : Frame where
  raw := tag :: beBytes ((body.length + 4) % 2 ^ 32) ++ body
  header := by
    simp [beBytes]

@[simp] theorem tag_frame
    (tag : UInt8)
    (body : Bytes) :
    (frame tag body).tag = tag := rfl

@[simp] theorem body_frame
    (tag : UInt8)
    (body : Bytes) :
    (frame tag body).body = body := rfl

/-- Split a body at its first NUL byte. -/
def cstr : Bytes → Option (Bytes × Bytes)
  | [] => none
  | byte :: rest =>
      if byte = 0 then
        some ([], rest)
      else
        (cstr rest).map fun parts => (byte :: parts.1, parts.2)

/-- A byte that continues a UTF-8 sequence. -/
def isContinuation (byte : UInt8) : Bool :=
  0x80 ≤ byte && byte ≤ 0xBF

/-- The second bytes that may follow a given three-byte lead. -/
def isSecondOfThree (lead byte : UInt8) : Bool :=
  if lead = 0xE0 then
    0xA0 ≤ byte && byte ≤ 0xBF
  else if lead = 0xED then
    0x80 ≤ byte && byte ≤ 0x9F
  else
    isContinuation byte

/-- The second bytes that may follow a given four-byte lead. -/
def isSecondOfFour (lead byte : UInt8) : Bool :=
  if lead = 0xF0 then
    0x90 ≤ byte && byte ≤ 0xBF
  else if lead = 0xF4 then
    0x80 ≤ byte && byte ≤ 0x8F
  else
    isContinuation byte

/-- The low six bits a continuation byte contributes. -/
def continuationBits (byte : UInt8) : Nat :=
  byte.toNat % 64

/-- The replacement character U+FFFD. -/
def replacement : Char :=
  Char.ofNat 0xFFFD

/--
Decode the character that starts at `lead`, with the number of bytes of `rest`
it takes.  An ill-formed sequence takes its longest well-formed start.
-/
def utf8Head (lead : UInt8) (rest : Bytes) : Char × Nat :=
  if lead < 0x80 then
    (Char.ofNat lead.toNat, 0)
  else if 0xC2 ≤ lead && lead ≤ 0xDF then
    match rest with
    | second :: _ =>
        if isContinuation second then
          (Char.ofNat (lead.toNat % 32 * 64 + continuationBits second), 1)
        else
          (replacement, 0)
    | [] => (replacement, 0)
  else if 0xE0 ≤ lead && lead ≤ 0xEF then
    match rest with
    | second :: third :: _ =>
        if isSecondOfThree lead second then
          if isContinuation third then
            (Char.ofNat
              (lead.toNat % 16 * 4096 + continuationBits second * 64 +
                continuationBits third), 2)
          else
            (replacement, 1)
        else
          (replacement, 0)
    | [second] => (replacement, if isSecondOfThree lead second then 1 else 0)
    | [] => (replacement, 0)
  else if 0xF0 ≤ lead && lead ≤ 0xF4 then
    match rest with
    | second :: third :: fourth :: _ =>
        if isSecondOfFour lead second then
          if isContinuation third then
            if isContinuation fourth then
              (Char.ofNat
                (lead.toNat % 8 * 262144 + continuationBits second * 4096 +
                  continuationBits third * 64 + continuationBits fourth), 3)
            else
              (replacement, 2)
          else
            (replacement, 1)
        else
          (replacement, 0)
    | [second, third] =>
        (replacement,
          if isSecondOfFour lead second then
            if isContinuation third then 2 else 1
          else 0)
    | [second] => (replacement, if isSecondOfFour lead second then 1 else 0)
    | [] => (replacement, 0)
  else
    (replacement, 0)

/-- Decode at most `fuel` characters; the number of bytes is always enough. -/
def utf8Lossy : Nat → Bytes → List Char
  | 0, _ => []
  | _ + 1, [] => []
  | fuel + 1, lead :: rest =>
      (utf8Head lead rest).1 ::
        utf8Lossy fuel (rest.drop (utf8Head lead rest).2)

/--
`String::from_utf8_lossy`: every maximal ill-formed part is replaced by one
U+FFFD.
-/
def fromUtf8Lossy (bytes : Bytes) : String :=
  String.ofList (utf8Lossy bytes.length bytes)

/-- The text of a body up to its first NUL byte. -/
def text (body : Bytes) : Option String :=
  (cstr body).map fun parts => fromUtf8Lossy parts.1

/-- Messages a client sends, named after the PostgreSQL protocol. -/
inductive FrontendTag where
  | parse
  | bind
  | describe
  | execute
  | close
  | flush
  | sync
  | query
  | terminate
  | other
  deriving Repr, DecidableEq

/-- Read a client tag byte. -/
def FrontendTag.ofByte (byte : UInt8) : FrontendTag :=
  match Char.ofNat byte.toNat with
  | 'P' => .parse
  | 'B' => .bind
  | 'D' => .describe
  | 'E' => .execute
  | 'C' => .close
  | 'H' => .flush
  | 'S' => .sync
  | 'Q' => .query
  | 'X' => .terminate
  | _ => .other

/-- Messages a server sends, named after the PostgreSQL protocol. -/
inductive BackendTag where
  | parameterStatus
  | parseComplete
  | bindComplete
  | closeComplete
  | parameterDescription
  | rowDescription
  | noData
  | dataRow
  | commandComplete
  | portalSuspended
  | emptyQueryResponse
  | errorResponse
  | noticeResponse
  | notificationResponse
  | readyForQuery
  | other
  deriving Repr, DecidableEq

/-- Read a server tag byte. -/
def BackendTag.ofByte (byte : UInt8) : BackendTag :=
  match Char.ofNat byte.toNat with
  | 'S' => .parameterStatus
  | '1' => .parseComplete
  | '2' => .bindComplete
  | '3' => .closeComplete
  | 't' => .parameterDescription
  | 'T' => .rowDescription
  | 'n' => .noData
  | 'D' => .dataRow
  | 'C' => .commandComplete
  | 's' => .portalSuspended
  | 'I' => .emptyQueryResponse
  | 'E' => .errorResponse
  | 'N' => .noticeResponse
  | 'A' => .notificationResponse
  | 'Z' => .readyForQuery
  | _ => .other

namespace Frame

/-- The message a client frame carries. -/
def frontendTag (f : Frame) : FrontendTag :=
  FrontendTag.ofByte f.tag

/-- The message a server frame carries. -/
def backendTag (f : Frame) : BackendTag :=
  BackendTag.ofByte f.tag

end Frame

/-- Build a frame from its tag letter and an ASCII body. -/
def message (tag : Char) (body : Bytes) : Frame :=
  frame (UInt8.ofNat tag.toNat) body

/-- One unnamed extended statement: `Parse`, `Bind` and `Execute` for a row. -/
def unnamedFrames (sql : String) : List Frame :=
  [message 'P' ([0] ++ ascii sql ++ [0, 0, 0]),
    message 'B' [0, 0, 0, 0, 0, 0, 0, 0],
    message 'E' [0, 0, 0, 0, 1]]

/-- A row with the single column `1`. -/
def rowOfOne : Frame :=
  message 'D' [0, 1, 0, 0, 0, 1, 49]

example : (message 'Z' (ascii "I")).backendTag = .readyForQuery := by decide

example : text (ascii "COMMIT" ++ [0]) = some "COMMIT" := by decide

example :
    text [0x43, 0xC3, 0xA9, 0xF0, 0x9F, 0x41, 0] = some "Cé\uFFFDA" := by
  decide +kernel

end Pgfault
