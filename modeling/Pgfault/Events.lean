import Pgfault.Classify

namespace Pgfault

/-!
# Semantic events

A statement is known by its class and by the SHA-256 digest of its text.  The
digest comes from a third-party crate, so everything that builds a statement
takes it as the parameter `sha256`, the lower-case hexadecimal digest.
-/

/-- Connection parameters the client announced at startup. -/
structure StartupMetadata where
  user : Option String
  database : Option String
  applicationName : Option String
  deriving Repr, DecidableEq, Inhabited

/-- What the observer remembers of one statement text. -/
structure Statement where
  statementClass : StatementClass
  fingerprint : String
  deriving Repr, DecidableEq

/-- `Statement::default()`: class `Other` and an empty fingerprint. -/
instance : Inhabited Statement :=
  ⟨{ statementClass := .other, fingerprint := "" }⟩

/-- Classify and fingerprint a statement text. -/
def Statement.new (sha256 : Bytes → String) (sql : Bytes) : Statement where
  statementClass := classify sql
  fingerprint := sha256 sql

/-- Statement texts of the worked sessions, with their SHA-256 digests. -/
def sampleDigests : List (Bytes × String) :=
  [(ascii "BEGIN",
      "a8402858d4f1e1d27afee976520485ebb4b96a5387355b823f0d0b8079729032"),
    (ascii "COMMIT",
      "79663c1d3b43ceaf9ee728e501c64b57ae2e4d6cb36ff5c65eddcda1de27342f"),
    (ascii "SELECT 1",
      "e004ebd5b5532a4b85984a62f8ad48a81aa3460c1ca07701f386135d72cdecf5"),
    (ascii "SELECT 2",
      "ebbb5b332060a3ede7047bd7528883b0a560e729848f9feb8ff742145e909b01"),
    (ascii "SET x = 1",
      "c970184c4323e4da0374a9681129d1d41ff1a8b13e706b92f0df568b24c11eaf"),
    (ascii "INSERT INTO t VALUES (1)",
      "d5e418f9b41585d7e47ed371255de8817f7bb36d7a86cc98b945bbd5d0e34c0f")]

/-- SHA-256 on the statement texts of the worked sessions. -/
def sampleSha256 (text : Bytes) : String :=
  ((sampleDigests.find? fun entry => entry.1 = text).map Prod.snd).getD ""

/-- Every event name a scenario may wait for. -/
def EVENTS : List String :=
  ["query.received",
    "query.forwarded",
    "statement.execution_started",
    "statement.execution_completed",
    "transaction.begin.requested",
    "transaction.commit.requested",
    "transaction.commit.completed",
    "transaction.rollback.requested",
    "transaction.rollback.completed",
    "transaction.implicit.completed",
    "transaction.failed",
    "result.started",
    "result.row",
    "result.completed",
    "connection.ready",
    "frontend.execute",
    "frontend.sync",
    "backend.error",
    "backend.command_complete",
    "backend.ready"]

/-- One semantic event with its coordinates. -/
structure Event where
  connectionId : Nat
  semanticReliable : Bool
  startup : StartupMetadata
  transactionEpoch : Nat
  queryCycle : Nat
  statementIndex : Nat
  statementClass : StatementClass
  sqlFingerprint : String
  event : String
  occurrence : Nat
  rowIndex : Option Nat
  deriving Repr, DecidableEq

end Pgfault
