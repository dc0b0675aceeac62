/-!
# The error log of a key store

Failures that callers do not see in full are logged: the stage that failed, the name of the key and
the cause in words. A store logs to its own sink if it has one, and to the sink of the process
otherwise.
-/

namespace Keyring.Store

/-- Where an event is logged. -/
inductive Sink where
  /-- The sink of the process. -/
  | process
  /-- The store's own sink. -/
  | own
  deriving DecidableEq, Repr

/-- The stage of an operation that failed. -/
inductive FailedStage where
  /-- Making the file of a new key. -/
  | create
  /-- Removing the file of a key that could not be written. -/
  | rollback
  /-- Reading a record. -/
  | read
  /-- Understanding a record. -/
  | parse
  /-- Encrypting a secret. -/
  | encrypt
  /-- Decrypting a secret. -/
  | decrypt
  /-- Removing a record. -/
  | delete
  deriving DecidableEq, Repr

/-- The word for a stage. -/
def FailedStage.word : FailedStage → String
  | .create => "create"
  | .rollback => "rollback"
  | .read => "read"
  | .parse => "parse"
  | .encrypt => "encrypt"
  | .decrypt => "decrypt"
  | .delete => "delete"

/-- A logged failure. -/
structure LogEvent where
  /-- Where it is logged. -/
  sink : Sink
  /-- What failed. -/
  stage : FailedStage
  /-- The name of the key. -/
  name : String
  /-- The cause in words. -/
  cause : String
  deriving DecidableEq, Repr

end Keyring.Store
