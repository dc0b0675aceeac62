import Keyring.Proofs.Store.Completion
import Keyring.Proofs.Store.Free
import Keyring.Proofs.Store.OtherFiles

/-!
# Failed calls change no record

A call that fails leaves every record as it was before, whatever the reason, if a file that could
not be written can be removed again. The cache gains nothing by it and keeps what it holds, but that
a failed removal takes the name of its key out.

- `Stage.Restoring`: what a call has changed so far, and how much of it lasts if it fails;
- `Advances.restoring`: each step of a call keeps to that;
- `Stage.FailsWith`: a call that could not write its file ends with the reason for that;
- `MakesOwn`: the directories that a call makes;
- `failed_call_keeps_records`: how a failed call leaves a store.
-/

namespace Keyring.Store

/-- Some work that writes a file. -/
def Work.isWriting : Work → Bool
  | .write _ _ _ | .flush _ | .sync _ => true
  | _ => false

/-- A call at a stage ends with a fault that kept it from writing its file. -/
def Stage.FailsWith (fault : FileFault) : Stage → Prop
  | .work (.rollBack first) => first = fault
  | .leave outcome | .finished outcome => outcome = .error (.io fault)
  | _ => False

/-- What a failed call has left under its name of what was held `before`; of a file that could not
be written nothing is left if it was `removed`. -/
structure Slot.Restored (removed : Prop) (operation : Operation) (before now : Slot) : Prop where
  record : removed → now.record = before.record
  cached : now.cached = before.cached ∨ operation = .delete ∧ now.cached = none

/-- What a call at a stage has changed so far of what was held `before` under its name. -/
def Stage.Restoring (removed : Prop) (operation : Operation) (before : Slot) (s : Store)
    (name : String) : Stage → Prop
  -- the file is the call's own
  | .work (.write _ _ _) | .work (.flush _) | .work (.sync _) | .work (.rollBack _) =>
    before.record = none ∧ s.record? name ≠ none ∧ s.cached? name = before.cached ∧ s.Reaches name
  -- the call cannot fail any more
  | .work (.cacheCreated _) | .work (.cacheRead _) => True
  | .work (.purge outcome) => s.cached? name = before.cached ∧
    ∀ error, outcome = .error error → s.record? name = before.record
  | .leave outcome | .finished outcome =>
    ∀ error, outcome = .error error → before.Restored removed operation (s.slot name)
  | _ => s.slot name = before

/-- The directories of a store are those of another one, and others that its own path leads
through. -/
def MakesOwn (s t : Store) : Prop :=
  ∀ place mode, t.disk.find? place = some (.directory mode) →
    s.disk.find? place = some (.directory mode) ∨
      ∃ directory, s.settings.backend = .files directory ∧ s.disk.Passes directory place

section

variable {s t u : Store} {id : Nat} {name : String} {operation : Operation} {reply : Reply}
  {call : Call} {stage stage' : Stage} {change : Change} {fault : FileFault} {before : Slot}
  {removed : Prop} {w : Work} {limit : Nat}

/-! ### What is held under the name -/

/-- The file of a key is removed if the device takes the call. -/
theorem removal_eq_done (hvalid : KeyName.Valid name) (hreaches : s.Reaches name)
    (hrecord : s.record? name ≠ none) (hdevice : reply.device = .accept limit) :
    s.removal name reply.device = .done := by
  cases hbackend : s.settings.backend with
  | memory => exact removal_of_memory hbackend name _
  | files directory =>
    obtain ⟨content, hcontent⟩ := Option.ne_none_iff_exists'.1 hrecord
    rw [record?, hbackend] at hcontent
    obtain ⟨mode, hfile⟩ := Disk.exists_file_of_contentAt? hcontent
    obtain ⟨target, hlocate⟩ := hreaches directory hbackend
    obtain ⟨parent, rfl, hplace⟩ := Disk.eq_of_locate_join hvalid hlocate
    rw [← hplace] at hfile
    rw [hdevice, removal_of_accept hbackend]
    simp only [Disk.remove, hlocate, hfile]
    rfl

/-- Each step of a call restores what it may have to, unless a removal fails. -/
theorem Advances.restoring (hadv : s.Advances t id call reply change stage)
    (hfits : call.stage.Fits s.settings call.name call.operation)
    (h : call.stage.Restoring removed call.operation before s call.name)
    (hremoves : removed → ∀ fault, call.stage = .work (.rollBack fault) →
      ∃ limit, reply.device = .accept limit) :
    stage.Restoring removed call.operation before t call.name := by
  have hslot := hadv.slot_self
  have hrecord : t.record? call.name = change.recordAfter (s.record? call.name) := by
    rw [hadv.record, if_pos rfl]
  have hcached : t.cached? call.name = change.cachedAfter (s.cached? call.name) := by
    rw [hadv.cached, if_pos rfl]
  have hnext := hadv.next
  obtain ⟨name, operation, stage'⟩ := call
  dsimp only at hslot hrecord hcached hnext h hfits hremoves ⊢
  -- a call that fails before it has changed anything
  have hrestored (hnothing : change = .nothing) (hbefore : s.slot name = before) :
      before.Restored removed operation (t.slot name) := by
    subst hnothing
    rw [hslot, ← hbefore]
    exact ⟨fun _ => rfl, .inl rfl⟩
  cases hnext with
  | refused | taken | notSealed | directoryFailed | fileExists | fileFailed | insertTaken
  | readNothing | readFailed | readMalformed | readUnsealable | notOpened =>
    exact fun _ _ => hrestored rfl h
  | hit => nofun
  | fileMade hnone hreaches =>
    obtain rfl : s.slot name = before := h
    refine ⟨hnone, ?_, hcached, hreaches.advances hadv⟩
    rw [hrecord]
    exact Option.some_ne_none _
  | wroteSome | wroteAll =>
    obtain ⟨hnone, -, hkept, hreaches⟩ := h
    refine ⟨hnone, ?_, hcached.trans hkept, hreaches.advances hadv⟩
    rw [hrecord]
    exact Option.some_ne_none _
  | writeFailed | flushed | flushFailed | syncFailed =>
    obtain ⟨hnone, hsome, hkept, hreaches⟩ := h
    exact ⟨hnone, hrecord ▸ hsome, hcached.trans hkept, hreaches.advances hadv⟩
  | rolledBack =>
    obtain ⟨hnone, -, hkept, -⟩ := h
    exact fun _ _ => ⟨fun _ => hrecord.trans hnone.symm, .inl (hcached.trans hkept)⟩
  | notRolledBack hfailed =>
    obtain ⟨-, hsome, hkept, hreaches⟩ := h
    refine fun _ _ => ⟨fun hr => ?_, .inl (hcached.trans hkept)⟩
    -- a removal that the device takes does not fail
    obtain ⟨limit, hdevice⟩ := hremoves hr _ rfl
    exact absurd (removal_eq_done hfits.1 hreaches hsome hdevice) hfailed
  | synced | inserted | readSecret | opened => trivial
  | cachedCreated | cachedRead => nofun
  | removed | removedNothing =>
    obtain rfl : s.slot name = before := h
    exact ⟨hcached, nofun⟩
  | notRemoved =>
    obtain rfl : s.slot name = before := h
    exact ⟨hcached, fun _ _ => hrecord⟩
  | purged =>
    obtain ⟨-, hkept⟩ := h
    exact fun error herror => ⟨fun _ => hrecord.trans (hkept error herror), .inr ⟨hfits.2, hcached⟩⟩
  | left | finished =>
    intro error herror
    rw [hslot]
    exact h error herror
  | @granted w =>
    obtain ⟨-, -, hfirst⟩ := hfits
    cases w <;> first
      | exact hslot.trans h
      | cases hfirst
  | _ => exact hslot.trans h

/-! ### The fault of a failed write -/

/-- Once a call has failed to write its file, it ends with the reason for that. -/
theorem Next.failsWith (hnext : Next s id name operation reply stage change stage')
    (h : stage.FailsWith fault) : stage'.FailsWith fault := by
  cases hnext with
  | @rolledBack first | @notRolledBack first =>
    obtain rfl : first = fault := h
    rfl
  | left | finished => exact h
  | _ => cases h

/-- A call whose file the device refuses to write fails with the reason for that. -/
theorem perform_failsWith (hfits : w.Fits s.settings operation) (hwriting : w.isWriting = true)
    (hdevice : reply.device = .refuse fault) :
    (s.perform id ⟨name, operation, .work w⟩ reply).2.FailsWith fault := by
  cases w with
  | write secret record written =>
    obtain ⟨directory, hfiles⟩ := exists_files hfits.2
    simp only [perform, doWork, hfiles, hdevice]
    rfl
  | flush | sync =>
    simp only [perform, doWork, hdevice]
    rfl
  | _ => cases hwriting

/-! ### Files and directories -/

/-- A step of a call makes no directories but those of the store. -/
theorem makesOwn_step (hcall : s.calls.find? id = some call)
    (hfits : call.stage.Fits s.settings call.name call.operation) (reply : Reply) :
    s.MakesOwn (s.step id reply) := by
  obtain ⟨-, hdisk⟩ := exists_advances_perform hcall hfits reply
  intro place mode hplace
  rw [hdisk] at hplace
  cases hbackend : s.settings.backend with
  | files directory =>
    have hconfined := confined_perform id hbackend hfits reply
    exact (hconfined.addsAlong place mode hplace).imp_right fun hpasses => ⟨directory, rfl, hpasses⟩
  | memory =>
    rw [disk_perform_of_memory id hbackend hfits reply] at hplace
    exact .inl hplace

theorem MakesOwn.trans (h : s.MakesOwn t) (h' : t.MakesOwn u) (hsettings : t.settings = s.settings)
    (hgrows : s.disk.Grows t.disk) : s.MakesOwn u := by
  intro place mode hplace
  rcases h' place mode hplace with hold | ⟨directory, hfiles, hpasses⟩
  · exact h place mode hold
  · rw [hsettings] at hfiles
    rw [Disk.Passes, hgrows.current] at hpasses
    exact .inr ⟨directory, hfiles, hpasses⟩

/-- All files are as before if that of the key is. -/
theorem KeepsFiles.contents_eq (h : s.KeepsFiles t name) (hsettings : t.settings = s.settings)
    (hrecord : t.record? name = s.record? name) (place : Location) :
    t.disk.contentAt? place = s.disk.contentAt? place := by
  -- the one place that may differ is that of the key itself, if its record is a file
  by_cases hplace : ∃ directory, s.settings.backend = .files directory ∧
    place = s.disk.placeOf directory name
  case neg => exact h.contents place fun directory hfiles _ heq => hplace ⟨directory, hfiles, heq⟩
  case pos =>
    obtain ⟨directory, hfiles, rfl⟩ := hplace
    have hsame : t.disk.placeOf directory name = s.disk.placeOf directory name := by
      rw [Disk.placeOf, h.grows.current, Disk.placeOf]
    rw [record?, record?, hsettings, hfiles] at hrecord
    simp only [hsame] at hrecord
    exact hrecord

/-! ### A call on its own -/

/-- What a call has left of a store when it has come to a stage. -/
structure HasLeft (removed : Prop) (s t : Store) (id : Nat) (name : String) (operation : Operation)
    (stage : Stage) : Prop where
  settings : t.settings = s.settings
  found : t.calls.find? id = some ⟨name, operation, stage⟩
  fits : stage.Fits t.settings name operation
  others : ∀ n, n ≠ name → t.slot n = s.slot n
  files : s.KeepsFiles t name
  directories : s.MakesOwn t
  restoring : stage.Restoring removed operation (s.slot name) t name

theorem hasLeft_call (removed : Prop) (s : Store) (id : Nat) (name : String)
    (operation : Operation) :
    HasLeft removed s (s.call id name operation) id name operation .start where
  settings := rfl
  found := by simp [Store.call]
  fits := trivial
  others _ _ := rfl
  files := keepsFiles_of_eq rfl
  directories _ _ h := .inl h
  restoring := rfl

theorem HasLeft.step (h : HasLeft removed s t id name operation stage)
    (hadv : t.Advances (t.step id reply) id ⟨name, operation, stage⟩ reply change stage')
    (hremoves : removed → ∀ fault, stage = .work (.rollBack fault) →
      ∃ limit, reply.device = .accept limit) :
    HasLeft removed s (t.step id reply) id name operation stage' where
  settings := hadv.settings.trans h.settings
  found := by rw [hadv.calls, if_pos rfl]
  fits := by
    rw [hadv.settings]
    exact hadv.next.fits h.fits
  others n hn := (hadv.slot_of_ne hn).trans (h.others n hn)
  files := h.files.trans (keepsFiles_step h.found h.fits reply) h.settings
  directories :=
    h.directories.trans (makesOwn_step h.found h.fits reply) h.settings h.files.grows
  restoring := hadv.restoring h.fits h.restoring hremoves

/-- In a run of its own, a call keeps to what it may change. -/
theorem exists_hasLeft (removed : Prop) (s : Store) (id : Nat) (name : String)
    (operation : Operation) (replies : Nat → Reply) (count : Nat)
    (hremoves : removed → ∀ i < count, ∀ fault,
      ((s.call id name operation).run (ownSteps id replies i)).stage? id =
        some (.work (.rollBack fault)) → ∃ limit, (replies i).device = .accept limit) :
    ∃ stage, HasLeft removed s ((s.call id name operation).run (ownSteps id replies count)) id name
      operation stage := by
  induction count with
  | zero => exact ⟨.start, hasLeft_call removed s id name operation⟩
  | succ count ih =>
    obtain ⟨stage, h⟩ := ih fun hr i hi => hremoves hr i (Nat.lt_succ_of_lt hi)
    obtain ⟨change, stage', hadv⟩ := exists_advances h.found h.fits (replies count)
    rw [run_ownSteps_succ]
    refine ⟨stage', h.step hadv fun hr fault hstage => ?_⟩
    refine hremoves hr count (Nat.lt_succ_self _) fault ?_
    rw [stage?, h.found, ← hstage]
    rfl

/-- A call whose file the device has refused to write fails from then on with the reason for
that. -/
theorem exists_failsWith (s : Store) (id : Nat) (name : String) (operation : Operation)
    (replies : Nat → Reply) {i count : Nat} (hi : i < count) (hwriting : w.isWriting = true)
    (hstage : ((s.call id name operation).run (ownSteps id replies i)).stage? id = some (.work w))
    (hdevice : (replies i).device = .refuse fault) :
    ∃ stage, ((s.call id name operation).run (ownSteps id replies count)).stage? id = some stage ∧
      stage.FailsWith fault := by
  induction count, hi using Nat.le_induction with
  | base =>
    obtain ⟨stage, h⟩ := exists_hasLeft False s id name operation replies i nofun
    obtain rfl : stage = .work w := by
      rw [stage?, h.found] at hstage
      exact Option.some.inj hstage
    obtain ⟨⟨change, hadv⟩, -⟩ := exists_advances_perform h.found h.fits (replies i)
    rw [run_ownSteps_succ]
    generalize (s.call id name operation).run (ownSteps id replies i) = u at h hadv ⊢
    have hfails : (u.perform id ⟨name, operation, .work w⟩ (replies i)).2.FailsWith fault :=
      perform_failsWith h.fits.2 hwriting hdevice
    refine ⟨_, ?_, hfails⟩
    rw [stage?, hadv.calls, if_pos rfl]
    rfl
  | succ count hlt ih =>
    obtain ⟨stage, hfound, hfails⟩ := ih
    obtain ⟨stage', h⟩ := exists_hasLeft False s id name operation replies count nofun
    obtain rfl : stage' = stage := by
      rw [stage?, h.found] at hfound
      exact Option.some.inj hfound
    obtain ⟨change, stage'', hadv⟩ := exists_advances h.found h.fits (replies count)
    rw [run_ownSteps_succ]
    refine ⟨stage'', ?_, hadv.next.failsWith hfails⟩
    rw [stage?, hadv.calls, if_pos rfl]
    rfl

/-- How a failed call leaves a store if it has been able to remove its file: no record, no file and
no directory is different but for directories of the store's own path. -/
structure KeepsRecords (s t : Store) : Prop where
  record : ∀ name, t.record? name = s.record? name
  contents : ∀ place, t.disk.contentAt? place = s.disk.contentAt? place
  grows : s.disk.Grows t.disk
  directories : s.MakesOwn t

/-- **Failed calls change no record.** A call is made in any state of a store of either kind, and
nobody else does anything until it ends; the device and the key management system answer as they
like. If the device refuses to write its file, at the first byte or later, the call ends with the
reason for that, whatever becomes of the removal of the file. If it ends with an error, for this or
any other reason, the cache holds what it held before, but for the name of a failed removal, which
it holds no more; the records of other names are as before; and if the device took each removal of a
file that could not be written, so are that of the name itself and all other files. -/
theorem failed_call_keeps_records (s : Store) (id : Nat) (name : String) (operation : Operation)
    (replies : Nat → Reply) (count : Nat) (outcome : Outcome) :
    let stageAt i := ((s.call id name operation).run (ownSteps id replies i)).stage? id
    let t := (s.call id name operation).run (ownSteps id replies count)
    t.outcome? id = some outcome →
      (∀ i < count, ∀ w fault, stageAt i = some (.work w) → w.isWriting = true →
        (replies i).device = .refuse fault → outcome = .error (.io fault)) ∧
      ∀ error, outcome = .error error →
        (∀ n, t.cached? n = s.cached? n ∨
          operation = .delete ∧ n = name ∧ t.cached? n = none) ∧
        (∀ n, n ≠ name → t.record? n = s.record? n) ∧
        ((∀ i < count, ∀ fault, stageAt i = some (.work (.rollBack fault)) →
          ∃ limit, (replies i).device = .accept limit) → s.KeepsRecords t) := by
  intro stageAt t houtcome
  obtain ⟨call, hcall, hover⟩ := outcome?_eq_some_iff.1 houtcome
  obtain ⟨stage, h⟩ := exists_hasLeft False s id name operation replies count nofun
  obtain rfl := Option.some.inj (h.found.symm.trans hcall)
  obtain rfl : stage = .finished outcome := hover
  refine ⟨fun i hi w fault hstage hwriting hdevice => ?_, fun error herror =>
    ⟨fun n => ?_, fun n hn => congrArg Slot.record (h.others n hn), fun hremoves => ?_⟩⟩
  · obtain ⟨stage, hfound, hfails⟩ :=
      exists_failsWith s id name operation replies hi hwriting hstage hdevice
    change t.stage? id = some stage at hfound
    rw [stage?, hcall] at hfound
    obtain rfl := Option.some.inj hfound
    exact hfails
  -- the cache needs no removal to succeed, the records do
  · by_cases hn : n = name
    · subst hn
      exact (h.restoring error herror).cached.imp_right fun hgone => ⟨hgone.1, rfl, hgone.2⟩
    · exact .inl (congrArg Slot.cached (h.others n hn))
  · obtain ⟨stage, h'⟩ := exists_hasLeft True s id name operation replies count
      fun _ => hremoves
    obtain rfl : stage = .finished outcome :=
      congrArg Call.stage (Option.some.inj (h'.found.symm.trans hcall))
    have hrecord : t.record? name = s.record? name := (h'.restoring error herror).record trivial
    refine ⟨fun n => ?_, h.files.contents_eq h.settings hrecord, h.files.grows, h.directories⟩
    by_cases hn : n = name
    · rw [hn, hrecord]
    · exact congrArg Slot.record (h.others n hn)

end

namespace Sample

/-- Two of four digits are written, and the device refuses the others. -/
def halfRefused (i : Nat) : Reply := if i = 8 then reply 1 else if i = 9 then refusal else reply 100

end Sample

/-- A file is removed of which half was written. -/
theorem failed_call_keeps_records_halfRefused :
    let s := Sample.filesWith none
    let half := (s.call 1 "a" (.create Sample.secret)).run (ownSteps 1 Sample.halfRefused 9)
    let t := (s.call 1 "a" (.create Sample.secret)).run (ownSteps 1 Sample.halfRefused 12)
    half.record? "a" = some [0x61, 0x61] ∧ t.outcome? 1 = some (.error (.io .writeRefused)) ∧
      s.KeepsRecords t := by
  intro s half t
  have houtcome : t.outcome? 1 = some (.error (.io .writeRefused)) := by decide +kernel
  refine ⟨by decide +kernel, houtcome, ?_⟩
  obtain ⟨-, herror⟩ := failed_call_keeps_records s 1 "a" (.create Sample.secret)
    Sample.halfRefused 12 _ houtcome
  refine (herror _ rfl).2.2 fun i _ fault hstage => ?_
  by_cases hi : i = 9
  case pos =>
    -- this is the write itself
    have hwrite : ((half.stage? 1).bind Stage.work?).any Work.isRollBack = false := by
      decide +kernel
    rw [hi] at hstage
    rw [show half.stage? 1 = _ from hstage] at hwrite
    cases hwrite
  case neg =>
    simp only [Sample.halfRefused, if_neg hi]
    split
    · exact ⟨1, rfl⟩
    · exact ⟨100, rfl⟩

end Keyring.Store
