import Keyring.Proofs.Store.Transition

/-!
# Every step is one of the list

One lemma for each thing that a call can do: it is a step of the list, and it touches what the list
says.

* `makes_perform` — a step of a call at a fitting stage is one of the list;
* `Advances`, `exists_advances` — the store after a step of a call.
-/

namespace Keyring.Store

/-- The locks after a step of a call at a stage: a call changes them only when it obtains, requests
or gives back one. -/
def Stage.locksAfter (id : Nat) (name : String) (locks : NameLocks) : Stage → NameLocks
  | .obtain _ => locks.obtain id name
  | .request w => locks.request id w.mode
  | .leave _ => locks.leave id
  | _ => locks

/-- What is done at a stage is a step of the list and touches what the list says. -/
def Makes (s : Store) (id : Nat) (name : String) (operation : Operation) (reply : Reply)
    (stage : Stage) (result : Store × Stage) : Prop :=
  ∃ change, Next s id name operation reply stage change result.2 ∧
    { s with locks := stage.locksAfter id name s.locks }.Touches result.1 name change

variable {s : Store} {id : Nat} {name directory : String} {operation : Operation} {reply : Reply}
  {secret : Secret} {record : List UInt8}

/-! ### Before the lock -/

theorem makes_begin : s.Makes id name operation reply .start (s.begin name operation) := by
  -- sweeps that start change no entry
  have hsweeps : s.Touches s.startSweeps name .nothing := by
    unfold startSweeps
    split
    · exact .refl s name
    · refine touches_nothing rfl rfl rfl rfl rfl fun n => ?_
      simp only [cached?, SweptCache.startSweep]
      split <;> split <;> rfl
  unfold begin
  split
  · next error h => exact ⟨_, .refused h, .refl s name⟩
  · next h =>
    have hvalid := KeyName.validate_eq_ok_iff.1 h
    cases operation with
    | create secret => exact ⟨_, .create hvalid rfl, hsweeps⟩
    | get => exact ⟨_, .get hvalid rfl, hsweeps⟩
    | delete => exact ⟨_, .delete hvalid rfl, hsweeps⟩

/-- Looking a name up changes at most when it was used last. -/
theorem touches_get (s : Store) (name : String) :
    s.Touches { s with cache := (s.cache.get name).2 } name .nothing :=
  touches_cache (fun n => by
    simp only [Change.cachedAfter, ite_self]
    exact Cache.find?_get _ _ _ _) fun _ => rfl

theorem makes_lookUpNew :
    s.Makes id name operation reply (.lookUpNew secret) (s.lookUpNew name secret) := by
  have hcached : (s.cache.get name).1 = s.cached? name := Cache.get_fst _ _ _
  have htouches := touches_get s name
  unfold lookUpNew
  split <;> next h => rw [h] at hcached htouches; first
    | exact ⟨_, .taken hcached.symm, htouches⟩
    | exact ⟨_, .free hcached.symm, htouches⟩

theorem makes_lookUp : s.Makes id name operation reply .lookUp (s.lookUp name) := by
  have hcached : (s.cache.get name).1 = s.cached? name := Cache.get_fst _ _ _
  have htouches := touches_get s name
  unfold lookUp
  split <;> next h => rw [h] at hcached htouches; first
    | exact ⟨_, .hit hcached.symm, htouches⟩
    | exact ⟨_, .miss hcached.symm, htouches⟩

theorem makes_makeRecord :
    s.Makes id name operation reply (.record secret) (s.makeRecord secret) := by
  unfold makeRecord
  split
  · next h => exact ⟨_, .plain h, .refl s name⟩
  · next h => exact ⟨_, .sealing h, touches_nothing rfl rfl rfl rfl rfl fun _ => rfl⟩

theorem makes_takeCiphertext :
    s.Makes id name operation reply (.encrypt secret)
      (s.takeCiphertext name secret reply.encrypted) := by
  unfold takeCiphertext
  split
  · next h => exact ⟨_, .sealed h, .refl s name⟩
  · next h => exact ⟨_, .notSealed h, (Touches.refl s name).report _ _ _⟩

/-! ### Creating -/

theorem reaches_of_files (hfiles : s.settings.backend = .files directory)
    (hlocate : ∃ target, s.disk.locate (path directory name) = .ok target) : s.Reaches name := by
  intro d hd
  obtain rfl : directory = d := by simpa using hfiles.symm.trans hd
  exact hlocate

theorem makes_makeDirectory :
    s.Makes id name operation reply (.work (.makeDirectory secret record))
      (s.makeDirectory directory name secret record reply.device) := by
  have hkeeps := s.disk.keeps_makeDirectories directory 0o700
  unfold makeDirectory
  split
  · exact ⟨_, .directoryFailed, (Touches.refl s name).report _ _ _⟩
  · split <;> next h =>
      rw [h] at hkeeps
      first
        | exact ⟨_, .directoryFailed, (touches_keeps hkeeps).report _ _ _⟩
        | exact ⟨_, .directoryMade, touches_keeps hkeeps⟩

theorem makes_createFile (hvalid : KeyName.Valid name)
    (hfiles : s.settings.backend = .files directory) :
    s.Makes id name operation reply (.work (.createFile secret record))
      (s.createFile directory name secret record reply.device) := by
  unfold createFile
  split
  · exact ⟨_, .fileFailed, (Touches.refl s name).report _ _ _⟩
  · split
    · next h =>
      obtain ⟨hlocate, hnone, hbecomes⟩ := Disk.becomes_createNew hvalid h
      exact ⟨_, .fileMade (by rwa [record?, hfiles]) (reaches_of_files hfiles hlocate),
        touches_becomes hfiles hbecomes (fun _ => rfl) fun _ => rfl⟩
    · exact ⟨_, .fileExists, .refl s name⟩
    · exact ⟨_, .fileFailed, (Touches.refl s name).report _ _ _⟩

theorem makes_write {written : Nat} (hvalid : KeyName.Valid name)
    (hfiles : s.settings.backend = .files directory) :
    s.Makes id name operation reply (.work (.write secret record written))
      (s.write directory name secret record written reply.device) := by
  unfold write
  split
  · exact ⟨_, .writeFailed, (Touches.refl s name).report _ _ _⟩
  · split
    · exact ⟨_, .writeFailed, (Touches.refl s name).report _ _ _⟩
    · next h =>
      obtain ⟨content, hcontent, hbecomes⟩ := Disk.becomes_writeAt hvalid h
      have hrecord : s.record? name = some content := by rwa [record?, hfiles]
      split
      · next hlt =>
        exact ⟨_, .wroteSome hrecord hlt,
          touches_becomes hfiles hbecomes (fun _ => rfl) fun _ => rfl⟩
      · next hle =>
        exact ⟨_, .wroteAll hrecord (Nat.not_lt.1 hle),
          touches_becomes hfiles hbecomes (fun _ => rfl) fun _ => rfl⟩

theorem makes_flush :
    s.Makes id name operation reply (.work (.flush secret)) (s.flush name secret reply.device) := by
  unfold flush
  split
  · exact ⟨_, .flushFailed, (Touches.refl s name).report _ _ _⟩
  · exact ⟨_, .flushed, .refl s name⟩

theorem makes_sync :
    s.Makes id name operation reply (.work (.sync secret)) (s.sync name secret reply.device) := by
  unfold sync
  split
  · exact ⟨_, .syncFailed, (Touches.refl s name).report _ _ _⟩
  · exact ⟨_, .synced, .refl s name⟩

theorem makes_rollBack {fault : FileFault} (hvalid : KeyName.Valid name)
    (hfiles : s.settings.backend = .files directory) :
    s.Makes id name operation reply (.work (.rollBack fault))
      (s.rollBack directory name fault reply.device) := by
  unfold rollBack
  split
  · next hdevice =>
    have hne : s.removal name reply.device ≠ .done := by
      rw [hdevice, removal_of_refuse hfiles]
      nofun
    exact ⟨_, .notRolledBack hne, (Touches.refl s name).report _ _ _⟩
  · next hdevice =>
    split
    · next h =>
      -- there may have been nothing to remove, or the removal failed
      have hne : s.removal name reply.device ≠ .done := by
        rw [hdevice, removal_of_accept hfiles, h]
        split <;> simp_all
      exact ⟨_, .notRolledBack hne, (Touches.refl s name).report _ _ _⟩
    · next h =>
      have hdone : s.removal name reply.device = .done := by
        rw [hdevice, removal_of_accept hfiles, h]
      exact ⟨_, .rolledBack hdone, touches_becomes hfiles (Disk.becomes_remove hvalid h).2
        (fun _ => rfl) fun _ => rfl⟩

theorem makes_insert (hmemory : s.settings.backend = .memory) :
    s.Makes id name operation reply (.work (.insert secret record))
      (s.insert name secret record) := by
  have hrecord : s.record? name = s.table.find? name := by rw [record?, hmemory]
  unfold insert
  split
  · next h => exact ⟨_, .insertTaken (hrecord.trans h), .refl s name⟩
  · next h =>
    have hfind (n : String) : (s.table.insert name record).find? n =
        if n = name then some record else s.table.find? n := by simp
    exact ⟨_, .inserted (hrecord.trans h),
      touches_table hmemory hfind (fun _ => rfl) fun _ => rfl⟩

/-! ### Reading -/

theorem makes_understand {held : List UInt8} (hrecord : s.record? name = some held)
    (hreaches : s.Reaches name) :
    s.Makes id name operation reply (.work .read)
      (s.understand name (s.settings.backend.readable held)) := by
  unfold understand
  split
  · next hkey =>
    split
    · next h => exact ⟨_, .readSecret hrecord hreaches hkey h, .refl s name⟩
    · next h =>
      exact ⟨_, .readMalformed hrecord hkey h, (Touches.refl s name).report _ _ _⟩
  · next hkey =>
    split
    · next h =>
      exact ⟨_, .readCiphertext hrecord hreaches hkey h,
        touches_nothing rfl rfl rfl rfl rfl fun _ => rfl⟩
    · next h =>
      exact ⟨_, .readUnsealable hrecord hkey h, (Touches.refl s name).report _ _ _⟩

theorem makes_read (hvalid : KeyName.Valid name) :
    s.Makes id name operation reply (.work .read) (s.read name reply.device) := by
  unfold read
  split
  · next hmemory =>
    have hrecord : s.record? name = s.table.find? name := by rw [record?, hmemory]
    split
    · next h => exact ⟨_, .readNothing fun _ => hrecord.trans h, .refl s name⟩
    · next record h =>
      have hmakes : s.Makes id name operation reply (.work .read)
          (s.understand name (s.settings.backend.readable record)) :=
        makes_understand (hrecord.trans h) fun d hd => by rw [hmemory] at hd; cases hd
      rwa [hmemory] at hmakes
  · next hfiles _ =>
    exact ⟨_, .readFailed (by simp [hfiles]), (Touches.refl s name).report _ _ _⟩
  · next directory _ hfiles _ =>
    split
    · next content h =>
      obtain ⟨hlocate, hcontent⟩ := (Disk.read_eq_ok_iff hvalid).1 h
      have hmakes : s.Makes id name operation reply (.work .read)
          (s.understand name (s.settings.backend.readable content)) :=
        makes_understand (by rwa [record?, hfiles]) (reaches_of_files hfiles hlocate)
      rwa [hfiles] at hmakes
    · next h =>
      refine ⟨_, .readNothing fun hreaches => ?_, .refl s name⟩
      -- a file at the end of the path would have been read
      by_contra hsome
      obtain ⟨content, hcontent⟩ := Option.ne_none_iff_exists'.1 hsome
      rw [record?, hfiles] at hcontent
      have hread := (Disk.read_eq_ok_iff hvalid).2 ⟨hreaches directory hfiles, hcontent⟩
      cases h.symm.trans hread
    · exact ⟨_, .readFailed (by simp [hfiles]), (Touches.refl s name).report _ _ _⟩

theorem makes_takeSecret {c : Ciphertext} :
    s.Makes id name operation reply (.work (.decrypt c)) (s.takeSecret name reply.decrypted) := by
  unfold takeSecret
  split
  · next h => exact ⟨_, .opened h, .refl s name⟩
  · next h => exact ⟨_, .notOpened h, (Touches.refl s name).report _ _ _⟩

/-- Adding a secret gives the secret that the cache holds then. -/
theorem makes_cacheRead :
    s.Makes id name operation reply (.work (.cacheRead secret))
      ({ s with cache := (s.cache.add name secret).2 },
        .leave (.ok (.secret (s.cache.add name secret).1.1))) := by
  have hheld : (s.cache.add name secret).1.1 = (s.cached? name).getD secret := by
    simp only [SweptCache.add, Cache.add, cached?, Cache.find?]
    cases s.cache.cache.entries.find? name <;> rfl
  rw [hheld]
  refine ⟨_, .cachedRead, touches_cache (fun n => ?_) fun _ => rfl⟩
  -- an entry that is there stays as it is
  simp only [SweptCache.add, Cache.add, cached?, Cache.find?, Change.cachedAfter]
  cases h : s.cache.cache.entries.find? name with
  | none => by_cases hn : n = name <;> simp [hn, Cache.Entry.new]
  | some entry => by_cases hn : n = name <;> simp [hn, h]

/-! ### Deleting -/

theorem makes_remove (hvalid : KeyName.Valid name) :
    s.Makes id name operation reply (.work .remove) (s.remove name reply.device) := by
  unfold remove
  split
  · next hmemory =>
    have hfind (n : String) : (s.table.erase name).find? n =
        if n = name then none else s.table.find? n := by simp
    exact ⟨_, .removed (removal_of_memory hmemory name _),
      touches_table hmemory hfind (fun _ => rfl) fun _ => rfl⟩
  · next fault hfiles hdevice =>
    have hfailed : s.removal name reply.device = .failed fault := by
      rw [hdevice, removal_of_refuse hfiles]
    exact ⟨_, .notRemoved hfailed, (Touches.refl s name).report _ _ _⟩
  · next directory _ hfiles hdevice =>
    split
    · next h =>
      have hdone : s.removal name reply.device = .done := by
        rw [hdevice, removal_of_accept hfiles, h]
      exact ⟨_, .removed hdone, touches_becomes hfiles (Disk.becomes_remove hvalid h).2
        (fun _ => rfl) fun _ => rfl⟩
    · next h =>
      have hmissing : s.removal name reply.device = .missing := by
        rw [hdevice, removal_of_accept hfiles, h]
      exact ⟨_, .removedNothing hmissing, .refl s name⟩
    · next fault hfault h =>
      have hfailed : s.removal name reply.device = .failed fault := by
        rw [hdevice, removal_of_accept hfiles, h]
        split <;> simp_all
      exact ⟨_, .notRemoved hfailed, (Touches.refl s name).report _ _ _⟩

/-! ### All steps -/

theorem exists_files (h : s.settings.backend ≠ .memory) :
    ∃ directory, s.settings.backend = .files directory := by
  cases hbackend : s.settings.backend with
  | files directory => exact ⟨directory, rfl⟩
  | memory => exact absurd hbackend h

/-- Fitting work under the lock is a step of the list. -/
theorem makes_doWork {work : Work} (hvalid : KeyName.Valid name)
    (hfits : work.Fits s.settings operation) :
    s.Makes id name operation reply (.work work) (s.doWork name reply work) := by
  -- work on a file only fits a store that keeps its records in files
  cases work with
  | makeDirectory secret record =>
    obtain ⟨directory, hfiles⟩ := exists_files hfits.2
    simp only [doWork, hfiles]
    exact makes_makeDirectory
  | createFile secret record =>
    obtain ⟨directory, hfiles⟩ := exists_files hfits.2
    simp only [doWork, hfiles]
    exact makes_createFile hvalid hfiles
  | write secret record written =>
    obtain ⟨directory, hfiles⟩ := exists_files hfits.2
    simp only [doWork, hfiles]
    exact makes_write hvalid hfiles
  | flush secret => exact makes_flush
  | sync secret => exact makes_sync
  | rollBack fault =>
    obtain ⟨directory, hfiles⟩ := exists_files hfits.2
    simp only [doWork, hfiles]
    exact makes_rollBack hvalid hfiles
  | insert secret record => exact makes_insert hfits.2
  | cacheCreated secret =>
    refine ⟨_, .cachedCreated, touches_cache (fun n => ?_) fun _ => rfl⟩
    exact Cache.find?_set _ _ _ _ _
  | read => exact makes_read hvalid
  | decrypt c => exact makes_takeSecret
  | cacheRead secret => exact makes_cacheRead
  | remove => exact makes_remove hvalid
  | purge outcome =>
    refine ⟨_, .purged, touches_cache (fun n => ?_) fun _ => rfl⟩
    exact Cache.find?_erase _ _ _

/-- What a call at a fitting stage does is a step of the list. -/
theorem makes_perform {call : Call}
    (hfits : call.stage.Fits s.settings call.name call.operation) :
    s.Makes id call.name call.operation reply call.stage (s.perform id call reply) := by
  obtain ⟨name, operation, stage⟩ := call
  cases stage with
  | start => exact makes_begin
  | lookUpNew secret => exact makes_lookUpNew
  | lookUp => exact makes_lookUp
  | record secret => exact makes_makeRecord
  | encrypt secret => exact makes_takeCiphertext
  | obtain work => exact ⟨_, .obtain, .refl _ name⟩
  | request work => exact ⟨_, .request, .refl _ name⟩
  | wait work =>
    refine ⟨.nothing, ?_, .refl s name⟩
    -- a call waits until it is found to hold the lock
    cases hheld : s.locks.isHeldBy id with
    | true => simpa [perform, hheld] using Next.granted hheld
    | false => simpa [perform, hheld] using Next.waiting hheld
  | work work => exact makes_doWork hfits.1 hfits.2
  | leave outcome => exact ⟨_, .left, .refl _ name⟩
  | finished outcome => exact ⟨_, .finished, .refl s name⟩

/-- One store is another one after a step of a call. -/
structure Advances (s t : Store) (id : Nat) (call : Call) (reply : Reply) (change : Change)
    (stage : Stage) : Prop where
  /-- The step is one of the list. -/
  next : Next s id call.name call.operation reply call.stage change stage
  settings : t.settings = s.settings
  locks : t.locks = call.stage.locksAfter id call.name s.locks
  grows : s.disk.Grows t.disk
  record : ∀ n, t.record? n =
    if n = call.name then change.recordAfter (s.record? n) else s.record? n
  cached : ∀ n, t.cached? n =
    if n = call.name then change.cachedAfter (s.cached? n) else s.cached? n
  calls : ∀ j, t.calls.find? j = if j = id then some { call with stage } else s.calls.find? j

/-- A call at a fitting stage makes a step of the list. -/
theorem exists_advances {call : Call} (hcall : s.calls.find? id = some call)
    (hfits : call.stage.Fits s.settings call.name call.operation) (reply : Reply) :
    ∃ change stage, s.Advances (s.step id reply) id call reply change stage := by
  have hmakes : s.Makes id call.name call.operation reply call.stage (s.perform id call reply) :=
    makes_perform hfits
  obtain ⟨change, hnext, htouches⟩ := hmakes
  refine ⟨change, (s.perform id call reply).2, ?_⟩
  rw [step, hcall]
  -- the store keeps the new stage of the call
  refine ⟨hnext, htouches.settings, htouches.locks, htouches.grows, htouches.record,
    htouches.cached, fun j => ?_⟩
  rw [FiniteMap.find?_insert, htouches.calls]
  by_cases hj : j = id <;> simp [hj]

variable {t : Store} {call : Call} {change : Change} {stage : Stage}

/-- The path of a key leads after a step where it did. -/
theorem Reaches.advances {n : String} (hreaches : s.Reaches n)
    (h : s.Advances t id call reply change stage) : t.Reaches n := by
  intro d hd
  rw [h.settings] at hd
  obtain ⟨target, htarget⟩ := hreaches d hd
  exact ⟨target, h.grows.locate htarget⟩

/-- What holds of every call after a step: of the one that made it, and of the others. -/
theorem Advances.forall_calls {P : Nat → Call → Prop}
    (h : s.Advances t id call reply change stage) (hself : P id { call with stage })
    (hothers : ∀ j other, j ≠ id → s.calls.find? j = some other → P j other) :
    ∀ j other, t.calls.find? j = some other → P j other := by
  intro j other hother
  rw [h.calls] at hother
  split at hother
  case isTrue hj =>
    obtain rfl := Option.some.inj hother
    rwa [hj]
  case isFalse hj => exact hothers j other hj hother

/-- What holds of every call after a new one was made: of the new one, and of the others. -/
theorem forall_calls_call {P : Nat → Call → Prop} (hself : P id ⟨name, operation, .start⟩)
    (hothers : ∀ j other, s.calls.find? j = some other → P j other) :
    ∀ j other, (s.call id name operation).calls.find? j = some other → P j other := by
  intro j other hother
  simp only [Store.call, FiniteMap.find?_insert, beq_iff_eq] at hother
  split at hother
  case isTrue hj =>
    obtain rfl := Option.some.inj hother
    rwa [hj]
  case isFalse => exact hothers j other hother

end Keyring.Store
