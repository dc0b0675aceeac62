import Keyring.Proofs.Store.Run

/-!
# What a step can do

Every step of a call leads from one stage to another and does at most one thing to what the backend
and the cache hold under the name of the call. `Next` lists all of them with what each tells about
the state in which it is made; what a run keeps is proved from this list alone.

* `Change`, `Touches` — what a step does to what is held under a name, and to nothing else;
* `Next` — the steps;
* `Stage.Fits` — the stages that a call for some operation can be at;
* `exists_next` — every step of a call at a fitting stage is one of the list;
* `Next.fits` — it leads to a fitting stage.
-/

namespace Keyring.Store

/-- What a step does to what is held under the name of its call. -/
inductive Change where
  /-- Nothing. -/
  | nothing
  /-- The backend holds a record. -/
  | record (record : List UInt8)
  /-- The backend holds nothing any more. -/
  | remove
  /-- The cache holds a secret. -/
  | cache (secret : Secret)
  /-- The cache holds nothing any more. -/
  | purge

/-- What the backend holds after a change. -/
def Change.recordAfter : Change → Option (List UInt8) → Option (List UInt8)
  | .record bytes, _ => some bytes
  | .remove, _ => none
  | _, before => before

/-- What the cache holds after a change. -/
def Change.cachedAfter : Change → Option Secret → Option Secret
  | .cache secret, _ => some secret
  | .purge, _ => none
  | _, before => before

/-- One store is another one after a change of what is held under a name. -/
structure Touches (s t : Store) (name : String) (change : Change) : Prop where
  settings : t.settings = s.settings
  locks : t.locks = s.locks
  calls : t.calls = s.calls
  grows : s.disk.Grows t.disk
  record : ∀ n, t.record? n = if n = name then change.recordAfter (s.record? n) else s.record? n
  cached : ∀ n, t.cached? n = if n = name then change.cachedAfter (s.cached? n) else s.cached? n

/-- The path of a key leads somewhere. -/
def Reaches (s : Store) (name : String) : Prop :=
  ∀ directory, s.settings.backend = .files directory →
    ∃ target, s.disk.locate (path directory name) = .ok target

/-- As much of a record as is read: a file is read up to the limit. -/
def Backend.readable : Backend → List UInt8 → List UInt8
  | .files _, record => record.take readLimit
  | .memory, record => record

/-- What became of the removal of a record. -/
inductive Removal where
  /-- The record is gone. -/
  | done
  /-- There was nothing to remove. -/
  | missing
  /-- The file could not be removed. -/
  | failed (fault : FileFault)
  deriving DecidableEq

/-- What becomes of the removal of a record, if the device takes the call in a given way. -/
def removal (s : Store) (name : String) (device : Disk.Reply) : Removal :=
  match s.settings.backend, device with
  | .memory, _ => .done
  | .files _, .refuse fault => .failed fault
  | .files directory, .accept _ =>
    match s.disk.remove (path directory name) with
    | .ok _ => .done
    | .error .notFound => .missing
    | .error fault => .failed fault

theorem removal_of_memory {s : Store} (hmemory : s.settings.backend = .memory) (name : String)
    (device : Disk.Reply) : s.removal name device = .done := by
  unfold removal
  rw [hmemory]

theorem removal_of_refuse {s : Store} {directory : String}
    (hfiles : s.settings.backend = .files directory) (name : String) (fault : FileFault) :
    s.removal name (.refuse fault) = .failed fault := by
  unfold removal
  rw [hfiles]

theorem removal_of_accept {s : Store} {directory : String}
    (hfiles : s.settings.backend = .files directory) (name : String) (limit : Nat) :
    s.removal name (.accept limit) =
      match s.disk.remove (path directory name) with
      | .ok _ => .done
      | .error .notFound => .missing
      | .error fault => .failed fault := by
  unfold removal
  rw [hfiles]

section

variable (s : Store) (id : Nat) (name : String) (operation : Operation) (reply : Reply)

/-- The steps of a call: the stage before, what is changed, and the stage after. -/
inductive Next : Stage → Change → Stage → Prop where
  -- checking the name, and looking it up in the cache
  | refused {error : Error} (h : KeyName.validate name = .error error) :
    Next .start .nothing (.finished (.error error))
  | create {secret : Secret} (hvalid : KeyName.Valid name) (h : operation = .create secret) :
    Next .start .nothing (.lookUpNew secret)
  | get (hvalid : KeyName.Valid name) (h : operation = .get) : Next .start .nothing .lookUp
  | delete (hvalid : KeyName.Valid name) (h : operation = .delete) :
    Next .start .nothing (.obtain .remove)
  | taken {secret held : Secret} (h : s.cached? name = some held) :
    Next (.lookUpNew secret) .nothing (.finished (.error .keyExists))
  | free {secret : Secret} (h : s.cached? name = none) :
    Next (.lookUpNew secret) .nothing (.record secret)
  | hit {held : Secret} (h : s.cached? name = some held) :
    Next .lookUp .nothing (.finished (.ok (.secret held)))
  | miss (h : s.cached? name = none) : Next .lookUp .nothing (.obtain .read)
  -- making the record of a new secret
  | plain {secret : Secret} (h : s.settings.masterKey = none) :
    Next (.record secret) .nothing
      (.obtain (s.settings.backend.storing secret (plainRecord secret)))
  | sealing {secret : Secret} {key : String} (h : s.settings.masterKey = some key) :
    Next (.record secret) .nothing (.encrypt secret)
  | sealed {secret : Secret} {c : Ciphertext} (h : reply.encrypted = .ok c) :
    Next (.encrypt secret) .nothing (.obtain (s.settings.backend.storing secret c.toRecord))
  | notSealed {secret : Secret} {fault : KmsFault} (h : reply.encrypted = .error fault) :
    Next (.encrypt secret) .nothing (.finished (.error (.internal "cannot encrypt key")))
  -- taking the lock
  | obtain {work : Work} : Next (.obtain work) .nothing (.request work)
  | request {work : Work} : Next (.request work) .nothing (.wait work)
  | waiting {work : Work} (h : s.locks.isHeldBy id = false) :
    Next (.wait work) .nothing (.wait work)
  | granted {work : Work} (h : s.locks.isHeldBy id = true) :
    Next (.wait work) .nothing (.work work)
  -- storing a record in a file, which is removed again when that fails half-way
  | directoryMade {secret : Secret} {record : List UInt8} :
    Next (.work (.makeDirectory secret record)) .nothing (.work (.createFile secret record))
  | directoryFailed {secret : Secret} {record : List UInt8} {fault : FileFault} :
    Next (.work (.makeDirectory secret record)) .nothing (.leave (.error (.io fault)))
  | fileMade {secret : Secret} {record : List UInt8} (hnone : s.record? name = none)
      (hreaches : s.Reaches name) :
    Next (.work (.createFile secret record)) (.record []) (.work (.write secret record 0))
  | fileExists {secret : Secret} {record : List UInt8} :
    Next (.work (.createFile secret record)) .nothing (.leave (.error .keyExists))
  | fileFailed {secret : Secret} {record : List UInt8} {fault : FileFault} :
    Next (.work (.createFile secret record)) .nothing (.leave (.error (.io fault)))
  | wroteSome {secret : Secret} {record content : List UInt8} {written limit : Nat}
      (hcontent : s.record? name = some content) (hlt : written + (limit + 1) < record.length) :
    Next (.work (.write secret record written))
      (.record (Disk.overwrite content written ((record.drop written).take (limit + 1))))
      (.work (.write secret record (written + (limit + 1))))
  | wroteAll {secret : Secret} {record content : List UInt8} {written limit : Nat}
      (hcontent : s.record? name = some content) (hle : record.length ≤ written + (limit + 1)) :
    Next (.work (.write secret record written))
      (.record (Disk.overwrite content written ((record.drop written).take (limit + 1))))
      (.work (.flush secret))
  | writeFailed {secret : Secret} {record : List UInt8} {written : Nat} {fault : FileFault} :
    Next (.work (.write secret record written)) .nothing (.work (.rollBack fault))
  | flushed {secret : Secret} : Next (.work (.flush secret)) .nothing (.work (.sync secret))
  | flushFailed {secret : Secret} {fault : FileFault} :
    Next (.work (.flush secret)) .nothing (.work (.rollBack fault))
  | synced {secret : Secret} : Next (.work (.sync secret)) .nothing (.work (.cacheCreated secret))
  | syncFailed {secret : Secret} {fault : FileFault} :
    Next (.work (.sync secret)) .nothing (.work (.rollBack fault))
  | rolledBack {fault : FileFault} (h : s.removal name reply.device = .done) :
    Next (.work (.rollBack fault)) .remove (.leave (.error (.io fault)))
  | notRolledBack {fault : FileFault} (h : s.removal name reply.device ≠ .done) :
    Next (.work (.rollBack fault)) .nothing (.leave (.error (.io fault)))
  -- storing a record in the table
  | inserted {secret : Secret} {record : List UInt8} (hnone : s.record? name = none) :
    Next (.work (.insert secret record)) (.record record) (.work (.cacheCreated secret))
  | insertTaken {secret : Secret} {record held : List UInt8} (h : s.record? name = some held) :
    Next (.work (.insert secret record)) .nothing (.leave (.error .keyExists))
  | cachedCreated {secret : Secret} :
    Next (.work (.cacheCreated secret)) (.cache secret) (.leave (.ok .done))
  -- reading and unsealing a record; a path may also lead nowhere
  | readNothing (h : s.Reaches name → s.record? name = none) :
    Next (.work .read) .nothing (.leave (.error .keyNotFound))
  | readFailed {fault : FileFault} (h : s.settings.backend ≠ .memory) :
    Next (.work .read) .nothing (.leave (.error (.io fault)))
  | readSecret {record : List UInt8} {secret : Secret} (hrecord : s.record? name = some record)
      (hreaches : s.Reaches name) (hkey : s.settings.masterKey = none)
      (h : Secret.ofRecord (s.settings.backend.readable record) = .ok secret) :
    Next (.work .read) .nothing (.work (.cacheRead secret))
  | readMalformed {record : List UInt8} {fault : Secret.Fault}
      (hrecord : s.record? name = some record) (hkey : s.settings.masterKey = none)
      (h : Secret.ofRecord (s.settings.backend.readable record) = .error fault) :
    Next (.work .read) .nothing (.leave (.error fault.toError))
  | readCiphertext {record : List UInt8} {c : Ciphertext} {key : String}
      (hrecord : s.record? name = some record) (hreaches : s.Reaches name)
      (hkey : s.settings.masterKey = some key)
      (h : Ciphertext.ofRecord (s.settings.backend.readable record) = .ok c) :
    Next (.work .read) .nothing (.work (.decrypt c))
  | readUnsealable {record : List UInt8} {error : Error} {key : String}
      (hrecord : s.record? name = some record) (hkey : s.settings.masterKey = some key)
      (h : Ciphertext.ofRecord (s.settings.backend.readable record) = .error error) :
    Next (.work .read) .nothing (.leave (.error .keySealed))
  | opened {c : Ciphertext} {secret : Secret} (h : reply.decrypted = .ok secret) :
    Next (.work (.decrypt c)) .nothing (.work (.cacheRead secret))
  | notOpened {c : Ciphertext} {fault : KmsFault} (h : reply.decrypted = .error fault) :
    Next (.work (.decrypt c)) .nothing (.leave (.error .keySealed))
  | cachedRead {secret : Secret} :
    Next (.work (.cacheRead secret)) (.cache ((s.cached? name).getD secret))
      (.leave (.ok (.secret ((s.cached? name).getD secret))))
  -- removing a record, and the name from the cache whatever became of the removal
  | removed (h : s.removal name reply.device = .done) :
    Next (.work .remove) .remove (.work (.purge (.ok .done)))
  | removedNothing (h : s.removal name reply.device = .missing) :
    Next (.work .remove) .nothing (.work (.purge (.ok .done)))
  | notRemoved {fault : FileFault} (h : s.removal name reply.device = .failed fault) :
    Next (.work .remove) .nothing (.work (.purge (.error (.io fault))))
  | purged {outcome : Outcome} : Next (.work (.purge outcome)) .purge (.leave outcome)
  -- giving the lock back
  | left {outcome : Outcome} : Next (.leave outcome) .nothing (.finished outcome)
  | finished {outcome : Outcome} : Next (.finished outcome) .nothing (.finished outcome)

end

/-! ### Stages that fit a call -/

/-- Some work under the lock that a call for an operation can have to do. -/
def Work.Fits (settings : Settings) (operation : Operation) : Work → Prop
  | .makeDirectory secret _ | .createFile secret _ | .write secret _ _ | .flush secret
  | .sync secret => operation = .create secret ∧ settings.backend ≠ .memory
  | .rollBack _ => (∃ secret, operation = .create secret) ∧ settings.backend ≠ .memory
  | .insert secret _ => operation = .create secret ∧ settings.backend = .memory
  | .cacheCreated secret => operation = .create secret
  | .read | .decrypt _ | .cacheRead _ => operation = .get
  | .remove | .purge _ => operation = .delete

/-- The work that a call begins with when it has the lock. -/
def Work.First : Work → Prop
  | .makeDirectory _ _ | .insert _ _ | .read | .remove => True
  | _ => False

/-- A stage that a call for an operation under a name can be at. -/
def Stage.Fits (settings : Settings) (name : String) (operation : Operation) : Stage → Prop
  | .start | .finished _ => True
  | .lookUpNew secret | .record secret | .encrypt secret =>
    KeyName.Valid name ∧ operation = .create secret
  | .lookUp => KeyName.Valid name ∧ operation = .get
  | .obtain w | .request w | .wait w => KeyName.Valid name ∧ w.Fits settings operation ∧ w.First
  | .work w => KeyName.Valid name ∧ w.Fits settings operation
  | .leave _ => KeyName.Valid name

variable {s t : Store} {id : Nat} {name : String} {operation : Operation} {reply : Reply}
  {stage stage' : Stage} {change : Change}

/-- Storing a record begins with work that fits. -/
theorem fits_storing (settings : Settings) (secret : Secret) (record : List UInt8) :
    (settings.backend.storing secret record).Fits settings (.create secret) ∧
      (settings.backend.storing secret record).First := by
  unfold Backend.storing
  split <;> next h => simp [Work.Fits, Work.First, h]

/-- Each step leads from a fitting stage to a fitting one. -/
theorem Next.fits (h : Next s id name operation reply stage change stage')
    (hfits : stage.Fits s.settings name operation) : stage'.Fits s.settings name operation := by
  cases h with
  | plain | sealed =>
    -- the work that stores the record depends on the backend
    obtain ⟨hvalid, rfl⟩ := hfits
    exact ⟨hvalid, fits_storing _ _ _⟩
  | _ => simp_all [Stage.Fits, Work.Fits, Work.First]

/-! ### What is touched -/

/-- A store in which nothing is changed that is held under a name. -/
theorem touches_nothing (hsettings : t.settings = s.settings) (hlocks : t.locks = s.locks)
    (hcalls : t.calls = s.calls) (hdisk : t.disk = s.disk) (htable : t.table = s.table)
    (hcached : ∀ n, t.cached? n = s.cached? n) : s.Touches t name .nothing where
  settings := hsettings
  locks := hlocks
  calls := hcalls
  grows := by rw [hdisk]
  record n := by simp [record?, Change.recordAfter, hsettings, hdisk, htable]
  cached n := by simp [hcached, Change.cachedAfter]

theorem Touches.refl (s : Store) (name : String) : s.Touches s name .nothing :=
  touches_nothing rfl rfl rfl rfl rfl fun _ => rfl

theorem Touches.report (h : s.Touches t name change) (failed : FailedStage) (n cause : String) :
    s.Touches (t.report failed n cause) name change :=
  ⟨h.settings, h.locks, h.calls, h.grows, h.record, h.cached⟩

/-- Keeping all files changes nothing. -/
theorem touches_keeps {d : Disk} (h : s.disk.Keeps d) :
    s.Touches { s with disk := d } name .nothing where
  settings := rfl
  locks := rfl
  calls := rfl
  grows := h.toGrows
  record n := by
    simp only [record?, Change.recordAfter, Disk.placeOf, h.current, h.contents, ite_self]
  cached n := (ite_self _).symm

/-- A change of one file is a change of the record of its key. -/
theorem touches_becomes {d : Disk} {directory : String} {content : Option (List UInt8)}
    (hfiles : s.settings.backend = .files directory)
    (h : s.disk.Becomes d (s.disk.placeOf directory name) content)
    (hchange : ∀ before, change.recordAfter before = content)
    (hcached : ∀ before, change.cachedAfter before = before) :
    s.Touches { s with disk := d } name change where
  settings := rfl
  locks := rfl
  calls := rfl
  grows := h.toGrows
  record n := by
    have hplace : d.placeOf directory n = s.disk.placeOf directory n := by
      simp only [Disk.placeOf, h.current]
    simp only [record?, hfiles, hplace, h.contents, hchange]
    -- different keys have different places
    by_cases hn : n = name
    · rw [if_pos hn, if_pos (by rw [hn])]
    · rw [if_neg hn, if_neg fun heq => hn (Disk.placeOf_injective heq)]
  cached n := by rw [hcached, ite_self]; rfl

/-- A change of the table under one name is a change of the record. -/
theorem touches_table {table : NameMap (List UInt8)} {content : Option (List UInt8)}
    (hmemory : s.settings.backend = .memory)
    (h : ∀ n, table.find? n = if n = name then content else s.table.find? n)
    (hchange : ∀ before, change.recordAfter before = content)
    (hcached : ∀ before, change.cachedAfter before = before) :
    s.Touches { s with table } name change where
  settings := rfl
  locks := rfl
  calls := rfl
  grows := .refl _
  record n := by simp only [record?, hmemory, h, hchange]
  cached n := by rw [hcached, ite_self]; rfl

/-- A change of the cache under one name is a change of what is cached. -/
theorem touches_cache {cache : SweptCache}
    (h : ∀ n, cache.cache.find? n =
      if n = name then change.cachedAfter (s.cached? n) else s.cached? n)
    (hrecord : ∀ before, change.recordAfter before = before) :
    s.Touches { s with cache } name change where
  settings := rfl
  locks := rfl
  calls := rfl
  grows := .refl _
  record n := by rw [hrecord, ite_self]; rfl
  cached := h

end Keyring.Store
