import Keyring.Proofs.Store.Agreement

/-!
# The cache agrees with the files

When no call for a key is in progress, what is cached is what the file of the key unseals to: this
holds after every run without races (`cached_agrees_with_file`). The cache and the files come apart
where one of the two conditions fails:

- a file is removed after a failure while it is cached or when another call has read it
  (`WorksOn.diverges_rollBack`);
- a ciphertext is stored that cannot be read (`WorksOn.diverges_unreadable`).
-/

namespace Keyring.Store

/-- A call that is over. -/
def Stage.isOver : Stage → Bool
  | .finished _ => true
  | _ => false

theorem exists_finished {stage : Stage} (h : stage.isOver = true) :
    ∃ outcome, stage = .finished outcome := by
  cases stage with
  | finished outcome => exact ⟨outcome, rfl⟩
  | _ => cases h

/-- Every call of a name is over. -/
def Settled (s : Store) (name : String) : Prop :=
  ∀ e ∈ s.calls.entries, e.2.name = name → e.2.stage.isOver = true

instance decidableSettled (s : Store) (name : String) : Decidable (s.Settled name) :=
  inferInstanceAs (Decidable (∀ e ∈ s.calls.entries, _ → _))

/-- A file can be read that unseals to what is cached. -/
def CacheAgrees (opens : Ciphertext → Option Secret) (s : Store) (directory name : String) : Prop :=
  ∀ secret, s.cached? name = some secret → ∃ content,
    s.disk.read (path directory name) = .ok content ∧
      secretOf s.settings opens content = some secret

section

variable {opens : Ciphertext → Option Secret} {s : Store} {id : Nat} {name directory : String}
  {reply : Reply} {secret : Secret} {settings : Settings} {disk : Disk} {now : Nat}
  {moves : List Move}

/-- When every call of a name is over, none works on it. -/
theorem Settled.not_worksOn (h : s.Settled name) (id : Nat) (w : Work) :
    ¬s.WorksOn name id w := by
  rintro ⟨call, hcall, hname, hstage⟩
  have hover := h (id, call) (FiniteMap.mem_entries_iff.2 hcall) hname
  rw [hstage] at hover
  cases hover

/-- A file that backs a secret is read, and unseals to it. -/
theorem Backed.exists_read (h : s.Backed opens name secret)
    (hfiles : s.settings.backend = .files directory) :
    ∃ content, s.disk.read (path directory name) = .ok content ∧
      secretOf s.settings opens content = some secret := by
  obtain ⟨record, hrecord, hopens⟩ := h.record
  rw [record?, hfiles] at hrecord
  exact ⟨record, (Disk.read_eq_ok_iff h.valid).2 ⟨h.reaches directory hfiles, hrecord⟩, hopens⟩

/-- What is cached does not agree with a record that does not unseal to it. -/
theorem not_cacheAgrees (hvalid : KeyName.Valid name)
    (hfiles : s.settings.backend = .files directory) (hcached : s.cached? name ≠ none)
    (hrecord : ∀ record, s.record? name = some record →
      secretOf s.settings opens record = none) : ¬s.CacheAgrees opens directory name := by
  intro hagrees
  obtain ⟨secret, hsecret⟩ := Option.ne_none_iff_exists'.1 hcached
  obtain ⟨content, hread, hopens⟩ := hagrees secret hsecret
  have hcontent : s.record? name = some content := by
    rw [record?, hfiles]
    exact ((Disk.read_eq_ok_iff hvalid).1 hread).2
  rw [hrecord content hcontent] at hopens
  cases hopens

/-- Work is done on valid names. -/
theorem WorksOn.valid {w : Work} (hsound : s.Sound) (h : s.WorksOn name id w) :
    KeyName.Valid name := by
  obtain ⟨call, hcall, hname, hstage⟩ := h
  have hfits := hsound.fits id call hcall
  rw [hstage, hname] at hfits
  exact hfits.1

/-- What a call that works on a name does next. -/
theorem WorksOn.exists_next {w : Work} (hsound : s.Sound) (h : s.WorksOn name id w)
    (reply : Reply) :
    ∃ operation change stage, Next s id name operation reply (.work w) change stage ∧
      (s.step id reply).Sound ∧ (s.step id reply).settings = s.settings ∧
      (s.step id reply).record? name = change.recordAfter (s.record? name) ∧
      (s.step id reply).cached? name = change.cachedAfter (s.cached? name) ∧
      ∀ j w', (s.step id reply).WorksOn name j w' ↔
        if j = id then stage = .work w' else s.WorksOn name j w' := by
  obtain ⟨call, hcall, rfl, hstage⟩ := h
  obtain ⟨change, stage, hadv⟩ := exists_advances hcall (hsound.fits id call hcall) reply
  refine ⟨call.operation, change, stage, hstage ▸ hadv.next, hsound.advances hcall hadv,
    hadv.settings, by rw [hadv.record, if_pos rfl], by rw [hadv.cached, if_pos rfl],
    fun j w' => ?_⟩
  rw [hadv.worksOn_iff]
  simp only [true_and]

/-- If the file is removed after a failure while it is cached, or when another call has read it, the
cache holds a secret of which there is no file. -/
theorem WorksOn.diverges_rollBack {fault : FileFault} (hsound : s.Sound)
    (hfiles : s.settings.backend = .files directory) (h : s.WorksOn name id (.rollBack fault))
    (hdone : s.removal name reply.device = .done) :
    (s.cached? name ≠ none → ¬(s.step id reply).CacheAgrees opens directory name) ∧
      ∀ j secret again, s.WorksOn name j (.cacheRead secret) →
        ¬((s.step id reply).step j again).CacheAgrees opens directory name := by
  have hvalid := h.valid hsound
  obtain ⟨operation, change, stage, hnext, hsound', hsettings, hrecord, hcached, hworks⟩ :=
    h.exists_next hsound reply
  -- the file goes, and the cache stays as it is
  have hgone : (s.step id reply).record? name = none ∧
      (s.step id reply).cached? name = s.cached? name := by
    cases hnext with
    | rolledBack => exact ⟨hrecord, hcached⟩
    | notRolledBack hfailed => exact absurd hdone hfailed
  refine ⟨fun hsome => ?_, fun j secret again hreader => ?_⟩
  · refine not_cacheAgrees hvalid (by rw [hsettings, hfiles]) (by rwa [hgone.2]) ?_
    simp [hgone.1]
  · -- the next step of the other call caches what it has read of the file that is gone
    have hne : j ≠ id := by
      rintro rfl
      cases h.unique hreader
    have hreader' := (hworks j _).2 (by rwa [if_neg hne])
    obtain ⟨_, _, _, hnext', -, hsettings', hrecord', hcached', -⟩ :=
      hreader'.exists_next hsound' again
    cases hnext'
    refine not_cacheAgrees hvalid (by rw [hsettings', hsettings, hfiles]) (by simp [hcached',
      Change.cachedAfter]) ?_
    simp [hrecord', Change.recordAfter, hgone.1]

/-- If the record of a new key cannot be read, its secret is cached all the same. -/
theorem WorksOn.diverges_unreadable {c : Ciphertext} (hsound : s.Sound)
    (hfiles : s.settings.backend = .files directory) (hkey : s.settings.masterKey ≠ none)
    (h : s.WorksOn name id (.cacheCreated secret)) (hrecord : s.record? name = some c.toRecord)
    (hunreadable : ¬c.Readable) : ¬(s.step id reply).CacheAgrees opens directory name := by
  obtain ⟨operation, change, stage, hnext, -, hsettings, hrecord', hcached, -⟩ :=
    h.exists_next hsound reply
  cases hnext
  refine not_cacheAgrees (h.valid hsound) (by rw [hsettings, hfiles]) (by simp [hcached,
    Change.cachedAfter]) fun record hsome => ?_
  -- the record stays, and unseals to nothing
  have hsame : (s.step id reply).record? name = s.record? name := hrecord'
  rw [hsame, hrecord] at hsome
  obtain rfl := Option.some.inj hsome
  rw [hsettings]
  exact secretOf_toRecord_eq_none hkey hunreadable

/-- **The cache agrees with the files.** If no calls race for the file of a key, what is cached
when no call for the key is in progress is what the file unseals to.

Both conditions are needed. The cache holds what no file unseals to when a file is removed after a
failure while it is cached or has been read, and when a ciphertext was stored that cannot be
read. -/
theorem cached_agrees_with_file (hfiles : settings.backend = .files directory)
    (hlegal : Legal (fun _ _ => True) (new settings disk now) moves)
    (hs : (new settings disk now).run moves = s) :
    (Legal (fun s m => Honest opens s m ∧ RollsBack name s m ∧ RaceFree name s m)
        (new settings disk now) moves →
      s.Settled name → s.CacheAgrees opens directory name) ∧
    (∀ id fault reply, s.WorksOn name id (.rollBack fault) →
      s.removal name reply.device = .done →
        (s.cached? name ≠ none → ¬(s.step id reply).CacheAgrees opens directory name) ∧
        ∀ j secret again, s.WorksOn name j (.cacheRead secret) →
          ¬((s.step id reply).step j again).CacheAgrees opens directory name) ∧
    ∀ id secret (c : Ciphertext) reply, settings.masterKey ≠ none →
      s.WorksOn name id (.cacheCreated secret) → s.record? name = some c.toRecord →
      ¬c.Readable →
        ¬(s.step id reply).CacheAgrees opens directory name := by
  have hsound : s.Sound := hs ▸ hlegal.sound (sound_new settings disk now)
  have hsettings : s.settings = settings := hs ▸ hlegal.settings_eq (sound_new settings disk now)
  have hfiles' : s.settings.backend = .files directory := by rw [hsettings, hfiles]
  refine ⟨fun hcalm hsettled secret hcached => ?_, fun id fault reply hworks hdone => ?_,
    fun id secret c reply hkey hworks hrecord hunreadable => ?_⟩
  · obtain ⟨-, -, hagreeing⟩ := hcalm.agreeing hfiles
    rw [hs] at hagreeing
    -- nobody is left that would purge the name
    rcases hagreeing.cached secret hcached with hbacked | ⟨id, outcome, hworks⟩
    · exact hbacked.exists_read hfiles'
    · exact absurd hworks (hsettled.not_worksOn id _)
  · exact hworks.diverges_rollBack hsound hfiles' hdone
  · exact hworks.diverges_unreadable hsound hfiles' (by rwa [hsettings]) hrecord hunreadable

end

namespace Sample

/-- A key is created, leaves the cache and is read again. -/
def readAgain : List Move :=
  .call 1 "a" (.create secret) :: steps 1 14 ++ .evict "a" :: .call 2 "a" .get :: steps 2 9

/-- A key is read before it has reached the device, which then refuses it. -/
def readTooSoon : List Move :=
  .call 1 "a" (.create secret) :: steps 1 11 ++ .call 2 "a" .get :: steps 2 9 ++
    .step 1 refusal :: steps 1 2

end Sample

/-- A key that was cached again when it was read agrees with its file. -/
theorem cached_agrees_with_file_readAgain :
    let s := (Sample.filesWith (some "k")).run Sample.readAgain
    s.cached? "a" = some Sample.secret ∧ s.CacheAgrees Sample.opens "keys" "a" := by
  intro s
  have hlegal : Legal (fun _ _ => True) (Sample.filesWith (some "k")) Sample.readAgain := by
    decide +kernel
  have hcalm : Legal (fun s m => Honest Sample.opens s m ∧ RollsBack "a" s m ∧ RaceFree "a" s m)
      (Sample.filesWith (some "k")) Sample.readAgain := by decide +kernel
  have hsettled : s.Settled "a" := by decide +kernel
  exact ⟨by decide +kernel, (cached_agrees_with_file rfl hlegal rfl).1 hcalm hsettled⟩

/-- A key that is read while it is brought to the device stays cached when the device refuses it and
its file is removed again. -/
theorem cached_without_file_readTooSoon :
    let s := (Sample.filesWith (some "k")).run Sample.readTooSoon
    Legal (fun s m => Honest Sample.opens s m ∧ RollsBack "a" s m) (Sample.filesWith (some "k"))
        Sample.readTooSoon ∧
      s.Settled "a" ∧ s.cached? "a" = some Sample.secret ∧
      s.disk.read (path "keys" "a") = .error .notFound ∧
      ¬s.CacheAgrees Sample.opens "keys" "a" := by
  intro s
  have hcached : s.cached? "a" = some Sample.secret := by decide +kernel
  have hread : s.disk.read (path "keys" "a") = .error .notFound := by decide +kernel
  refine ⟨by decide +kernel, by decide +kernel, hcached, hread, fun hagrees => ?_⟩
  obtain ⟨content, hcontent, -⟩ := hagrees Sample.secret hcached
  rw [hread] at hcontent
  cases hcontent

end Keyring.Store
