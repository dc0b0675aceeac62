import Keyring.Cache.Swept
import Keyring.Data.FiniteMap
import Keyring.Disk
import Keyring.Lock.Names
import Keyring.Store.Call
import Keyring.Store.Log

/-!
# Key stores

A key store with everything that it works on: the disk or the table of records that decides what
is stored, the cache in front of it, the locks of the names, the calls in progress and the log.

The records are those of `Secret` or, for a store with a master key, those of `Ciphertext`; they
take the same form in both backends.
-/

namespace Keyring

/-- Where records are kept. -/
inductive Store.Backend where
  /-- One file per key in a directory. -/
  | files (directory : String)
  /-- A table that is lost with the store. -/
  | memory
  deriving DecidableEq, Repr

/-- What a key store is set up with. -/
structure Store.Settings where
  /-- Where records are kept. -/
  backend : Store.Backend
  /-- How long after they were cached entries are removed; zero for never. -/
  expiry : Nat
  /-- How long after their last use entries are removed; zero for never. -/
  unusedExpiry : Nat
  /-- The master key that secrets are encrypted under, if they are. -/
  masterKey : Option String
  /-- Where failures are logged. -/
  sink : Store.Sink
  deriving DecidableEq, Repr

/-- A key store. -/
structure Store where
  /-- What it is set up with. -/
  settings : Store.Settings
  /-- The disk, of which it uses the directory of its backend. -/
  disk : Disk
  /-- The records of the memory backend. -/
  table : NameMap (List UInt8)
  /-- The cache with the clock. -/
  cache : SweptCache
  /-- Whether the sweeps have been started. -/
  started : Bool
  /-- The locks of the names. -/
  locks : NameLocks
  /-- The calls that were made, by number. -/
  calls : FiniteMap Nat Store.Call
  /-- The failures that were logged, the first one first. -/
  log : List Store.LogEvent
  /-- How often something was given to be encrypted. -/
  encryptions : Nat
  /-- How often something was given to be decrypted. -/
  decryptions : Nat

namespace Store

/-- A store that has just been set up, on a disk and at a time. -/
def new (settings : Settings) (disk : Disk) (now : Nat) : Store where
  settings
  disk
  table := .empty
  cache := .new now
  started := false
  locks := .empty
  calls := .empty
  log := []
  encryptions := 0
  decryptions := 0

/-- Where the file of a key is. -/
def path (directory name : String) : String := Path.join directory name

/-- Log a failure. -/
def report (s : Store) (stage : FailedStage) (name cause : String) : Store :=
  { s with log := s.log ++ [⟨s.settings.sink, stage, name, cause⟩] }

/-- Start the sweeps, if that has not been done. -/
def startSweeps (s : Store) : Store :=
  if s.started then s
  else
    let cache := (s.cache.startSweep .created s.settings.expiry).2
    { s with started := true, cache := (cache.startSweep .unused s.settings.unusedExpiry).2 }

/-- Make a call under a number. -/
def call (s : Store) (id : Nat) (name : String) (operation : Operation) : Store :=
  { s with calls := s.calls.insert id ⟨name, operation, .start⟩ }

/-- What a call does next. -/
def stage? (s : Store) (id : Nat) : Option Stage := (s.calls.find? id).map Call.stage

/-- How a call ended, if it has. -/
def outcome? (s : Store) (id : Nat) : Option Outcome :=
  match s.stage? id with
  | some (.finished outcome) => some outcome
  | _ => none

/-- Give up a call wherever it is; its lock is free again. A call to the file system that is under
way then is not interrupted: it is taken as not made, or as made, the call being one stage further
when it is given up. -/
def abandon (s : Store) (id : Nat) : Store :=
  { s with calls := s.calls.erase id, locks := s.locks.leave id }

end Store

end Keyring
