import Pgfault.CycleHistory

namespace Pgfault

open Queue ConnectionState

/-!
# Conforming sessions

A monitor of both ends of a session.  The client sends groups: one `Query`, or
extended frames up to a `Sync`.  The server answers the requests in order, each
with the replies the protocol allows, skips to `Sync` behind an error, and ends
every group with one `ReadyForQuery`.  Notices, notifications and parameter
changes may come at any time.

Every request carries a note; what the observer announced when the request was
sent, say.  The monitor never looks at it.
-/

/-- A client frame that waits for its answer. -/
structure Request (Note : Type) where
  frame : Frame
  note : Note

/-- One group of client frames. -/
structure Group (Note : Type) where
  /-- Requests not answered yet, the one being answered first. -/
  waiting : List (Request Note) := []
  /-- How the statements answered so far ended. -/
  outcomes : List BackendTag := []
  /-- Whether a frame that creates a cycle has been sent. -/
  touched : Bool := false
  /-- Whether the `Query` or the `Sync` has been sent. -/
  closed : Bool := false
  /-- Whether the server has reported an error. -/
  failed : Bool := false
  /-- Whether a `Describe` is half answered. -/
  described : Bool := false

namespace Group

variable {Note : Type}

/-- A request the server passes over without an answer. -/
def skips (g : Group Note) (r : Request Note) : Bool :=
  r.frame.frontendTag = .flush ∨
    (g.failed = true ∧ r.frame.frontendTag ≠ .sync ∧
      r.frame.frontendTag ≠ .query)

/-- The requests the server still answers. -/
def due (g : Group Note) : List (Request Note) :=
  g.waiting.dropWhile g.skips

/-- Whether a reply may answer a request of a group. -/
def fits (g : Group Note) (request : FrontendTag) (f : Frame) : Bool :=
  match request, f.backendTag with
  | .parse, .parseComplete => true
  | .bind, .bindComplete => true
  | .close, .closeComplete => true
  | .describe, .parameterDescription => !g.described
  | .describe, .rowDescription => true
  | .describe, .noData => true
  | .execute, .dataRow => true
  | .execute, .commandComplete => true
  | .execute, .portalSuspended => true
  | .execute, .emptyQueryResponse => true
  | .query, .rowDescription => !g.failed
  | .query, .dataRow => !g.failed
  | .query, .commandComplete => !g.failed
  | .query, .emptyQueryResponse => !g.failed
  | .query, .readyForQuery =>
      (readyStatus f).isSome && (g.failed || !g.outcomes.isEmpty)
  | .sync, .readyForQuery => (readyStatus f).isSome
  | _, .errorResponse => !g.failed
  | _, _ => false

/-- Whether a reply may come next. -/
def expects (g : Group Note) (f : Frame) : Bool :=
  g.due.head?.any fun r => g.fits r.frame.frontendTag f

/-- The request at the front is done. -/
def finish (g : Group Note) : Group Note :=
  { g with waiting := g.due.tail, described := false }

/-- Whether the request being answered has a certain tag. -/
def answering (g : Group Note) (tag : FrontendTag) : Bool :=
  g.due.head?.any fun r => r.frame.frontendTag == tag

/-- A statement of the request at the front has ended. -/
def conclude (g : Group Note) (outcome : BackendTag) : Group Note :=
  let noted := { g with outcomes := g.outcomes ++ [outcome] }
  if g.answering .execute then noted.finish else noted

/-- The group behind a reply that does not end it. -/
def reply (g : Group Note) (f : Frame) : Group Note :=
  match f.backendTag with
  | .parseComplete => g.finish
  | .bindComplete => g.finish
  | .closeComplete => g.finish
  | .parameterDescription => { g with described := true }
  | .rowDescription => if g.answering .describe then g.finish else g
  | .noData => g.finish
  | .commandComplete => g.conclude .commandComplete
  | .portalSuspended => g.conclude .portalSuspended
  | .emptyQueryResponse => g.conclude .emptyQueryResponse
  | .errorResponse => { g with failed := true, described := false }
  | _ => g

/-- One more client frame. -/
def add (g : Group Note) (r : Request Note) : Group Note :=
  { g with
    waiting := g.waiting ++ [r]
    touched := g.touched || (touch r.frame).isSome
    closed := g.closed || r.frame.frontendTag == .sync ||
      r.frame.frontendTag == .query }

end Group

/-- Both ends of a session. -/
structure Server (Note : Type) where
  groups : List (Group Note) := []
  /-- Whether a `BEGIN` has opened a transaction block. -/
  block : Bool := false

namespace Server

variable {Note : Type}

/-- Whether the client is inside a group. -/
def isOpen (s : Server Note) : Bool :=
  s.groups.getLast?.any fun g => !g.closed

/-- Which frame the client may send next. -/
def admits (s : Server Note) (f : Frame) : Bool :=
  match f.frontendTag with
  | .query => !s.isOpen
  | .terminate => false
  | .other => false
  | _ => true

/-- The groups with the one that the client is sending at the back. -/
def opened (s : Server Note) : List (Group Note) :=
  if s.isOpen then s.groups else s.groups ++ [({} : Group Note)]

/-- The client sends a frame, in its open group or in a new one. -/
def send (s : Server Note) (r : Request Note) : Server Note :=
  { s with groups := modifyBack (fun g => g.add r) s.opened }

/-- Frames a server may send at any time. -/
def isAsync (tag : BackendTag) : Bool :=
  tag = .noticeResponse ∨ tag = .notificationResponse ∨
    tag = .parameterStatus ∨ tag = .other

/-- `ReadyForQuery` never reports idle inside a transaction block. -/
def reports (s : Server Note) (f : Frame) : Bool :=
  !(s.block && readyStatus f == some .idle)

/-- Which frame the server may send next. -/
def expects (s : Server Note) (f : Frame) : Bool :=
  isAsync f.backendTag ||
    (s.groups.head?.any fun g => g.expects f) && s.reports f

/-- The block flag behind a completed command. -/
def blockAfter (s : Server Note) (f : Frame) : Bool :=
  if f.backendTag = .commandComplete then
    match text f.body with
    | some "BEGIN" => true
    | some "START TRANSACTION" => true
    | some "COMMIT" => false
    | some "ROLLBACK" => false
    | some "PREPARE TRANSACTION" => false
    | _ => s.block
  else
    s.block

/-- The server sends a frame. -/
def reply (s : Server Note) (f : Frame) : Server Note :=
  if isAsync f.backendTag then
    s
  else if f.backendTag = .readyForQuery then
    { s with groups := s.groups.tail }
  else
    { groups := modifyFront (fun g => g.reply f) s.groups
      block := s.blockAfter f }

/-- Whether a call of the observer fits the session. -/
def permits (s : Server Unit) : Call → Prop
  | .frontend f => s.admits f = true
  | .forwarded => True
  | .backend f => s.expects f = true

/-- The session behind a call of the observer. -/
def step (s : Server Unit) : Call → Server Unit
  | .frontend f => s.send ⟨f, ()⟩
  | .forwarded => s
  | .backend f => s.reply f

instance decidablePermits (s : Server Unit) :
    (call : Call) → Decidable (s.permits call)
  | .frontend f => inferInstanceAs (Decidable (s.admits f = true))
  | .forwarded => inferInstanceAs (Decidable True)
  | .backend f => inferInstanceAs (Decidable (s.expects f = true))

/-- Calls that come from a conforming client and a conforming server. -/
def Conforming (calls : List Call) : Prop :=
  Machine.Permitted permits step {} calls

instance (calls : List Call) : Decidable (Conforming calls) :=
  inferInstanceAs (Decidable (Machine.Permitted permits step {} calls))

end Server

end Pgfault
