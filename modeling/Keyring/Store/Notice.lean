import Keyring.Store.Step

/-!
# What a key store notes in passing

Besides failures, a store notes for debugging what it does: the sweeps that it starts, what they
remove, the keys that files are made for and that are deleted, and why a record is no ciphertext.
These notices go to the sink of the process, and nobody waits for them or looks at them.

What is noted while a store is opened tells its configuration, and is not here.
-/

namespace Keyring

/-- What the libraries that read records say of bytes that they cannot read. -/
structure Ciphertext.Wording where
  /-- Of bytes that are not JSON, or JSON of another shape. -/
  json : List UInt8 → String
  /-- Of the bytes of a record in which the encrypted bytes are not base64. -/
  base64 : List UInt8 → String

/-- What is noted of bytes that are no ciphertext record. -/
def Ciphertext.Fault.text (w : Ciphertext.Wording) (record : List UInt8) :
    Ciphertext.Fault → String
  | .tooLarge => "record exceeds the 10 MiB limit"
  | .notARecord => "invalid record: " ++ w.json record
  | .missingKey => "record has no key"
  | .notBase64 => "invalid base64 bytes: " ++ w.base64 record

namespace Store

/-- Something that is noted in passing. -/
inductive Notice where
  /-- A sweep is started. -/
  | sweepStarted (policy : Sweep.Policy) (expiry period : Nat)
  /-- A sweep ends because the cache is gone. -/
  | sweepEnded (policy : Sweep.Policy)
  /-- A sweep has removed so many entries. -/
  | evicted (policy : Sweep.Policy) (count : Nat)
  /-- A key was created, with a file. -/
  | created (name path : String)
  /-- A key was deleted, with its file. -/
  | deleted (name : String)
  /-- A record is no ciphertext. -/
  | undecodable (cause : String)
  deriving DecidableEq, Repr

/-- A notice without the cause for which a record is no ciphertext. -/
def Notice.bare : Notice → Notice
  | .undecodable _ => .undecodable ""
  | notice => notice

/-- What is noted when the sweeps are started. -/
def Settings.sweepNotices (settings : Settings) : List Notice :=
  [(Sweep.Policy.created, settings.expiry), (.unused, settings.unusedExpiry)].filterMap
    fun (policy, expiry) =>
      if expiry = 0 then none else some (.sweepStarted policy expiry (policy.period expiry))

/-- What is noted when a call begins: the first one with a valid name starts the sweeps. -/
def beginNotices (s : Store) (name : String) : List Notice :=
  match KeyName.validate name with
  | .error _ => []
  | .ok () => if s.started then [] else s.settings.sweepNotices

/-- The bytes that are read of the record of a key, if there are any. -/
def bytesRead? (s : Store) (name : String) (device : Disk.Reply) : Option (List UInt8) :=
  match s.settings.backend, device with
  | .memory, _ => s.table.find? name
  | .files _, .refuse _ => none
  | .files directory, .accept _ =>
    match s.disk.read (path directory name) with
    | .ok content => some (content.take readLimit)
    | .error _ => none

/-- The bytes that are read are what a call goes on with. -/
theorem read_of_bytesRead?_eq_some {s : Store} {name : String} {device : Disk.Reply}
    {record : List UInt8} (h : s.bytesRead? name device = some record) :
    s.read name device = s.understand name record := by
  unfold bytesRead? at h
  unfold read
  generalize s.settings.backend = backend at *
  cases backend with
  | memory =>
    dsimp only at h ⊢
    rw [h]
  | files directory =>
    cases device with
    | refuse fault => cases h
    | accept limit =>
      dsimp only at h ⊢
      generalize s.disk.read (path directory name) = content at *
      cases content with
      | error fault => cases h
      | ok content =>
        obtain rfl := Option.some.inj h
        rfl

/-- What is noted of the bytes of a record. Without a master key they are no ciphertext record, and
nothing is noted. -/
def readNotices (words : List UInt8 → Ciphertext.Fault → String) (s : Store)
    (record : List UInt8) : List Notice :=
  match s.settings.masterKey with
  | none => []
  | some _ =>
    match Ciphertext.decode record with
    | .ok _ => []
    | .error fault => [.undecodable (words record fault)]

/-- What is noted in a step of a call. Only a store of files notes the keys that it creates and
deletes. -/
def stepNotices (words : List UInt8 → Ciphertext.Fault → String) (s : Store) (call : Call)
    (reply : Reply) : List Notice :=
  match call.stage, s.settings.backend with
  | .start, _ => s.beginNotices call.name
  | .work .read, _ => (s.bytesRead? call.name reply.device).elim [] (s.readNotices words)
  | .work (.cacheCreated _), .files directory => [.created call.name (path directory call.name)]
  | .work (.purge (.ok _)), .files _ => [.deleted call.name]
  | _, _ => []

end Store

namespace SweptCache

/-- What is noted when a sweep reads the clock: that it ends, if it ends now. -/
def beginNotices (c : SweptCache) (i : Nat) : List Store.Notice :=
  match c.sweeps[i]? with
  | none => []
  | some s =>
    match s.phase, (s.begin c.now c.dropped).phase with
    | .waiting _, .ended => [.sweepEnded s.policy]
    | _, _ => []

/-- What is noted when a sweep has removed entries. -/
def finishNotices (c : SweptCache) (i : Nat) : List Store.Notice :=
  match c.sweeps[i]? with
  | none => []
  | some s =>
    if (s.finish c.cache).2.size < c.cache.size then
      [.evicted s.policy (c.cache.size - (s.finish c.cache).2.size)]
    else []

end SweptCache

end Keyring
