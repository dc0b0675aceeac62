import Keyring.KeyName
import Keyring.Store

/-!
# Steps of a key store

`Store.step` makes the next step of a call. What the environment decides — how the device takes a
call to the file system, what the key management system answers — is an argument. A call that
waits for its lock stays as it is.

A failure of the key management system is logged and never reaches the caller: a secret that cannot
be encrypted is an internal error, and a record that cannot be decrypted is a sealed key.
-/

namespace Keyring.Store

/-- The largest number of bytes that is read of a file: one more than any record may have. -/
def readLimit : Nat := Ciphertext.maxRecordSize + 1

/-- The record of a secret without a master key. -/
def plainRecord (secret : Secret) : List UInt8 := Text.Utf8.ofString secret.toHex

/-- The first work of storing a record. -/
def Backend.storing (secret : Secret) (record : List UInt8) : Backend → Work
  | .files _ => .makeDirectory secret record
  | .memory => .insert secret record

/-- Check the name and start the sweeps. -/
def begin (s : Store) (name : String) (operation : Operation) : Store × Stage :=
  match KeyName.validate name with
  | .error error => (s, .finished (.error error))
  | .ok () =>
    (s.startSweeps,
      match operation with
      | .create secret => .lookUpNew secret
      | .get => .lookUp
      | .delete => .obtain .remove)

/-- Look whether the name of a new key is cached. -/
def lookUpNew (s : Store) (name : String) (secret : Secret) : Store × Stage :=
  match s.cache.get name with
  | (some _, cache) => ({ s with cache }, .finished (.error .keyExists))
  | (none, cache) => ({ s with cache }, .record secret)

/-- Look the name up in the cache. -/
def lookUp (s : Store) (name : String) : Store × Stage :=
  match s.cache.get name with
  | (some secret, cache) => ({ s with cache }, .finished (.ok (.secret secret)))
  | (none, cache) => ({ s with cache }, .obtain .read)

/-- Make the record of a new key, or begin to have it encrypted. -/
def makeRecord (s : Store) (secret : Secret) : Store × Stage :=
  match s.settings.masterKey with
  | none => (s, .obtain (s.settings.backend.storing secret (plainRecord secret)))
  | some _ => ({ s with encryptions := s.encryptions + 1 }, .encrypt secret)

/-- Take the ciphertext of a new key. -/
def takeCiphertext (s : Store) (name : String) (secret : Secret) :
    Except KmsFault Ciphertext → Store × Stage
  | .ok c => (s, .obtain (s.settings.backend.storing secret c.toRecord))
  | .error fault =>
    (s.report .encrypt name fault.message, .finished (.error (.internal "cannot encrypt key")))

/-- Understand a record that was read, or begin to have it decrypted. -/
def understand (s : Store) (name : String) (record : List UInt8) : Store × Stage :=
  match s.settings.masterKey with
  | none =>
    match Secret.ofRecord record with
    | .ok secret => (s, .work (.cacheRead secret))
    | .error fault =>
      (s.report .parse name fault.toError.message, .leave (.error fault.toError))
  | some _ =>
    match Ciphertext.ofRecord record with
    | .ok c => ({ s with decryptions := s.decryptions + 1 }, .work (.decrypt c))
    | .error error => (s.report .parse name error.message, .leave (.error .keySealed))

/-- Take the secret of a ciphertext. -/
def takeSecret (s : Store) (name : String) : Except KmsFault Secret → Store × Stage
  | .ok secret => (s, .work (.cacheRead secret))
  | .error fault => (s.report .decrypt name fault.message, .leave (.error .keySealed))

/-- End with a failure of the file system, which is logged. -/
def failWith (s : Store) (stage : FailedStage) (name : String) (fault : FileFault) :
    Store × Stage :=
  (s.report stage name fault.message, .leave (.error (.io fault)))

/-- Give up writing a file because of a failure, which is logged. -/
def failWrite (s : Store) (name : String) (fault : FileFault) : Store × Stage :=
  (s.report .create name fault.message, .work (.rollBack fault))

/-- Make the directory of the store. -/
def makeDirectory (s : Store) (directory name : String) (secret : Secret) (record : List UInt8) :
    Disk.Reply → Store × Stage
  | .refuse fault => s.failWith .create name fault
  | .accept _ =>
    match s.disk.makeDirectories directory 0o700 with
    | (disk, .error fault) => { s with disk }.failWith .create name fault
    | (disk, .ok ()) => ({ s with disk }, .work (.createFile secret record))

/-- Make the file of a key. A file that exists is another key, and no failure. -/
def createFile (s : Store) (directory name : String) (secret : Secret) (record : List UInt8) :
    Disk.Reply → Store × Stage
  | .refuse fault => s.failWith .create name fault
  | .accept _ =>
    match s.disk.createNew (path directory name) 0o600 with
    | .ok disk => ({ s with disk }, .work (.write secret record 0))
    | .error .alreadyExists => (s, .leave (.error .keyExists))
    | .error fault => s.failWith .create name fault

/-- Write the next bytes of a record. -/
def write (s : Store) (directory name : String) (secret : Secret) (record : List UInt8)
    (written : Nat) : Disk.Reply → Store × Stage
  | .refuse fault => s.failWrite name fault
  | .accept limit =>
    match s.disk.writeAt (path directory name) written ((record.drop written).take (limit + 1)) with
    | .error fault => s.failWrite name fault
    | .ok disk =>
      ({ s with disk },
        if written + (limit + 1) < record.length then
          .work (.write secret record (written + (limit + 1)))
        else .work (.flush secret))

/-- Hand the written bytes over to the system. -/
def flush (s : Store) (name : String) (secret : Secret) : Disk.Reply → Store × Stage
  | .refuse fault => s.failWrite name fault
  | .accept _ => (s, .work (.sync secret))

/-- Bring the written bytes to the device. -/
def sync (s : Store) (name : String) (secret : Secret) : Disk.Reply → Store × Stage
  | .refuse fault => s.failWrite name fault
  | .accept _ => (s, .work (.cacheCreated secret))

/-- Remove a file that could not be written. That this failed, too, is only logged. -/
def rollBack (s : Store) (directory name : String) (fault : FileFault) :
    Disk.Reply → Store × Stage
  | .refuse second => (s.report .rollback name second.message, .leave (.error (.io fault)))
  | .accept _ =>
    match s.disk.remove (path directory name) with
    | .error second => (s.report .rollback name second.message, .leave (.error (.io fault)))
    | .ok disk => ({ s with disk }, .leave (.error (.io fault)))

/-- Put a record into the table. -/
def insert (s : Store) (name : String) (secret : Secret) (record : List UInt8) : Store × Stage :=
  match s.table.find? name with
  | some _ => (s, .leave (.error .keyExists))
  | none => ({ s with table := s.table.insert name record }, .work (.cacheCreated secret))

/-- Read the record of a key. -/
def read (s : Store) (name : String) (device : Disk.Reply) : Store × Stage :=
  match s.settings.backend, device with
  | .memory, _ =>
    match s.table.find? name with
    | none => (s, .leave (.error .keyNotFound))
    | some record => s.understand name record
  | .files _, .refuse fault => s.failWith .read name fault
  | .files directory, .accept _ =>
    match s.disk.read (path directory name) with
    | .ok content => s.understand name (content.take readLimit)
    | .error .notFound => (s, .leave (.error .keyNotFound))
    | .error fault => s.failWith .read name fault

/-- End the removal of a record with a failure of the file system, which is logged. -/
def failRemove (s : Store) (name : String) (fault : FileFault) : Store × Stage :=
  (s.report .delete name fault.message, .work (.purge (.error (.io fault))))

/-- Remove the record of a key. That there is none is no failure. -/
def remove (s : Store) (name : String) (device : Disk.Reply) : Store × Stage :=
  match s.settings.backend, device with
  | .memory, _ => ({ s with table := s.table.erase name }, .work (.purge (.ok .done)))
  | .files _, .refuse fault => s.failRemove name fault
  | .files directory, .accept _ =>
    match s.disk.remove (path directory name) with
    | .ok disk => ({ s with disk }, .work (.purge (.ok .done)))
    | .error .notFound => (s, .work (.purge (.ok .done)))
    | .error fault => s.failRemove name fault

/-- Do some work under the lock. Only a store of files has work on files. -/
def doWork (s : Store) (name : String) (reply : Reply) (work : Work) : Store × Stage :=
  match work, s.settings.backend with
  | .makeDirectory secret record, .files directory =>
    s.makeDirectory directory name secret record reply.device
  | .createFile secret record, .files directory =>
    s.createFile directory name secret record reply.device
  | .write secret record written, .files directory =>
    s.write directory name secret record written reply.device
  | .flush secret, _ => s.flush name secret reply.device
  | .sync secret, _ => s.sync name secret reply.device
  | .rollBack fault, .files directory => s.rollBack directory name fault reply.device
  | .insert secret record, _ => s.insert name secret record
  | .cacheCreated secret, _ =>
    ({ s with cache := s.cache.set name secret }, .leave (.ok .done))
  | .read, _ => s.read name reply.device
  | .decrypt _, _ => s.takeSecret name reply.decrypted
  | .cacheRead secret, _ =>
    ({ s with cache := (s.cache.add name secret).2 },
      .leave (.ok (.secret (s.cache.add name secret).1.1)))
  | .remove, _ => s.remove name reply.device
  | .purge outcome, _ => ({ s with cache := s.cache.erase name }, .leave outcome)
  | work, .memory => (s, .work work)

/-- Do what a call does next, and tell what it does then. -/
def perform (s : Store) (id : Nat) (call : Call) (reply : Reply) : Store × Stage :=
  match call.stage with
  | .start => s.begin call.name call.operation
  | .lookUpNew secret => s.lookUpNew call.name secret
  | .lookUp => s.lookUp call.name
  | .record secret => s.makeRecord secret
  | .encrypt secret => s.takeCiphertext call.name secret reply.encrypted
  | .obtain work => ({ s with locks := s.locks.obtain id call.name }, .request work)
  | .request work => ({ s with locks := s.locks.request id work.mode }, .wait work)
  | .wait work => (s, if s.locks.isHeldBy id then .work work else .wait work)
  | .work work => s.doWork call.name reply work
  | .leave outcome => ({ s with locks := s.locks.leave id }, .finished outcome)
  | .finished outcome => (s, .finished outcome)

/-- Make the next step of a call. -/
def step (s : Store) (id : Nat) (reply : Reply) : Store :=
  match s.calls.find? id with
  | none => s
  | some call =>
    let (s, stage) := s.perform id call reply
    { s with calls := s.calls.insert id { call with stage } }

end Keyring.Store
