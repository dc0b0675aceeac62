import Keyring.Ciphertext
import Keyring.Disk.Reply
import Keyring.Error
import Keyring.Kms.Fault
import Keyring.Lock.Fair
import Keyring.Secret

/-!
# Calls of a key store

A call runs in small steps, between which other calls run. `Stage` says what a call does next:
before it has its name's lock, under the lock (`Work`), and when it is over. A call that creates or
reads a key shares the lock with others of its kind; one that deletes a key has it alone.
-/

namespace Keyring

/-- What a call is to do with the key of its name. -/
inductive Operation where
  /-- Store a secret under a free name. -/
  | create (secret : Secret)
  /-- Give the secret of a name. -/
  | get
  /-- Free a name. -/
  | delete
  deriving DecidableEq

/-- What a successful call gives. -/
inductive Answer where
  /-- Nothing but that it is done. -/
  | done
  /-- The secret of the name. -/
  | secret (secret : Secret)
  deriving DecidableEq

/-- How a call ends. -/
abbrev Outcome := Except Error Answer

namespace Store

/-- What a call does next under its name's lock. -/
inductive Work where
  /-- Make the directory of the store. -/
  | makeDirectory (secret : Secret) (record : List UInt8)
  /-- Make the key's file, which must not exist. -/
  | createFile (secret : Secret) (record : List UInt8)
  /-- Write what follows the bytes that are written. -/
  | write (secret : Secret) (record : List UInt8) (written : Nat)
  /-- Hand the written bytes over to the system. -/
  | flush (secret : Secret)
  /-- Bring the written bytes to the device. -/
  | sync (secret : Secret)
  /-- Remove the file after a failure. -/
  | rollBack (fault : FileFault)
  /-- Put the record into the table, in which the name must be free. -/
  | insert (secret : Secret) (record : List UInt8)
  /-- Put a created secret into the cache. -/
  | cacheCreated (secret : Secret)
  /-- Read the record. -/
  | read
  /-- Wait for the secret of a ciphertext. -/
  | decrypt (ciphertext : Ciphertext)
  /-- Put a secret that was read into the cache, unless there is one. -/
  | cacheRead (secret : Secret)
  /-- Remove the record. -/
  | remove
  /-- Remove the name from the cache. -/
  | purge (outcome : Outcome)

/-- How a lock is held for some work. -/
def Work.mode : Work → LockMode
  | .remove | .purge _ => .exclusive
  | _ => .shared

/-- What a call does next. -/
inductive Stage where
  /-- Check the name and start the sweeps. -/
  | start
  /-- Look whether the name of a new key is cached. -/
  | lookUpNew (secret : Secret)
  /-- Look the name up in the cache. -/
  | lookUp
  /-- Make the record of a new key. -/
  | record (secret : Secret)
  /-- Wait for the ciphertext of a new key. -/
  | encrypt (secret : Secret)
  /-- Get a reference to the name's lock. -/
  | obtain (work : Work)
  /-- Ask for the lock. -/
  | request (work : Work)
  /-- Wait for the lock. -/
  | wait (work : Work)
  /-- Work under the lock. -/
  | work (work : Work)
  /-- Give the lock back. -/
  | leave (outcome : Outcome)
  /-- Nothing. -/
  | finished (outcome : Outcome)

/-- A call. -/
structure Call where
  /-- The name of the key. -/
  name : String
  /-- What it is to do. -/
  operation : Operation
  /-- What it does next. -/
  stage : Stage

/-- What the environment answers to one step of a call, as far as the step asks for it. -/
structure Reply where
  /-- How the device takes a call to the file system. -/
  device : Disk.Reply
  /-- The result of encrypting. -/
  encrypted : Except KmsFault Ciphertext
  /-- The result of decrypting. -/
  decrypted : Except KmsFault Secret
  /-- The device does not tell what exists. -/
  honest : device.isHonest = true := by rfl

end Store

end Keyring
