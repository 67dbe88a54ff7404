import Pgfault.ConformingServer
import Pgfault.PipelineAlignment

namespace Pgfault

open Queue ConnectionState

/-!
# Sessions through the proxy

A session is the observer together with both ends of the connection.  A client
frame is observed and then forwarded, or observed and then suppressed, in which
case the server never sees it.  Every request carries the events it raised, so
that the events of an answer can be compared with them.
-/

/-- One step of a session. -/
inductive Turn where
  | client (f : Frame)
  | dropped (f : Frame)
  | forwarded
  | server (f : Frame)
  deriving DecidableEq

/-- What is remembered of a request that was sent to the server. -/
structure Announcement where
  /-- The events the request raised. -/
  raised : List Event
  /-- Whether no `Execute` of its group was suppressed in front of it. -/
  clean : Bool

/-- The observer and both ends of the connection. -/
structure Session where
  state : ConnectionState
  server : Server Announcement := {}
  /-- Whether the client is inside a group. -/
  inGroup : Bool := false
  /-- Whether an `Execute` of the current group was suppressed. -/
  spoiled : Bool := false
  /-- Whether any frame was suppressed. -/
  suppressed : Bool := false

namespace Server

/--
A suppressed `Execute` opens the client's group as well.  The server waits for
nothing more than before.
-/
def drop {Note : Type} (s : Server Note) : Server Note :=
  { s with
    groups := modifyBack (fun g => { g with touched := true }) s.opened }

end Server

namespace Session

/-- The frames that end a group. -/
def isTerminator (tag : FrontendTag) : Bool :=
  tag = .query ∨ tag = .sync

/-- The frames whose events can suppress them. -/
def isSuppressible (tag : FrontendTag) : Bool :=
  tag = .query ∨ tag = .execute ∨ tag = .sync

/-- What the client may send next. -/
def sends (σ : Session) (f : Frame) : Bool :=
  match f.frontendTag with
  | .query => !σ.inGroup
  | .terminate => false
  | .other => false
  | _ => true

/-- Which turn may come next. -/
def permits (σ : Session) : Turn → Prop
  | .client f => σ.sends f = true
  | .dropped f => σ.sends f = true ∧ isSuppressible f.frontendTag = true
  | .forwarded => True
  | .server f => σ.server.expects f = true

instance decidablePermits (σ : Session) :
    (turn : Turn) → Decidable (σ.permits turn)
  | .client f => inferInstanceAs (Decidable (σ.sends f = true))
  | .dropped f =>
      inferInstanceAs (Decidable
        (σ.sends f = true ∧ isSuppressible f.frontendTag = true))
  | .forwarded => inferInstanceAs (Decidable True)
  | .server f => inferInstanceAs (Decidable (σ.server.expects f = true))

/-- One turn. -/
def step (sha256 : Bytes → String) (σ : Session) : Turn → Session
  | .client f =>
      { state := (σ.state.frontend sha256 f).2
        server := σ.server.send
          ⟨f, ⟨(σ.state.frontend sha256 f).1, !σ.spoiled⟩⟩
        inGroup := !isTerminator f.frontendTag
        spoiled := σ.spoiled && !isTerminator f.frontendTag
        suppressed := σ.suppressed }
  | .dropped f =>
      { state := (σ.state.frontend sha256 f).2
        server :=
          if f.frontendTag = .execute then σ.server.drop else σ.server
        inGroup := !isTerminator f.frontendTag
        spoiled := !isTerminator f.frontendTag
        suppressed := true }
  | .forwarded => { σ with state := σ.state.forwarded.2 }
  | .server f =>
      { σ with
        state := (σ.state.backend f).2
        server := σ.server.reply f }

/-- A session once the server has greeted the client. -/
def start
    (sha256 : Bytes → String)
    (id : Nat)
    (startup : StartupMetadata)
    (greeting : List Frame) : Session where
  state := greeted sha256 id startup greeting

/-- A session after some turns. -/
def run
    (sha256 : Bytes → String)
    (σ : Session)
    (turns : List Turn) : Session :=
  Machine.run (step sha256) σ turns

/-- The group being answered and the request a reply would answer. -/
def answered (σ : Session) : Option (Group Announcement × Request Announcement) :=
  σ.server.groups.head?.bind fun g => g.due.head?.map fun r => (g, r)

end Session

end Pgfault
