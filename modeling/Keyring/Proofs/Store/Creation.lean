import Keyring.Proofs.Ciphertext.Prefix
import Keyring.Proofs.Store.Agreement

/-!
# A new key is found whole or not at all

While a call creates a key, others may read it: creating and reading share the lock of the name. A
reader that comes before the file is made finds nothing, and one that comes when all bytes are
written finds the secret. One that comes in between reads a part of the record. Without a master key
that part may be the record of a shorter secret, and is malformed otherwise; with a master key it is
never the record of a ciphertext.

- `Creates`: what may happen while a secret is created and read, and nothing that this needs fails;
- `Whole`: what holds then, as long as nobody reads what is being written;
- `finds_whole_secret`: who reads the key finds none or the secret, unless its file is read while it
  is written, and what is found then.
-/

namespace Keyring.Store

/-- A stage that a call reaches when a call to the file system fails. -/
def Stage.isFailure : Stage → Bool
  | .work (.rollBack _) | .leave (.error (.io _)) => true
  | _ => false

/-- The ciphertext that a call has asked to have decrypted. -/
def Stage.ciphertext? : Stage → Option Ciphertext
  | .work (.decrypt c) => some c
  | _ => none

/-- An answer with the secret, if the ciphertext can be opened. -/
def Reply.Opens (opens : Ciphertext → Option Secret) (reply : Reply) (stage : Stage) : Prop :=
  ∀ c ∈ stage.ciphertext?, ∀ secret ∈ opens c, reply.decrypted.toOption = some secret

/-- A move in which calls for a name create one secret or read it, and nothing fails that they
need. -/
def Creates (opens : Ciphertext → Option Secret) (name : String) (secret : Secret) (s : Store) :
    Move → Prop
  | .call _ n operation => n = name → operation = .get ∨ operation = .create secret
  | .step id reply => ∀ call ∈ s.calls.find? id, call.name = name →
    reply.Opens opens call.stage ∧
      ∀ stage ∈ (s.step id reply).stage? id, stage.isFailure = false
  | _ => True

instance decidableOpens (opens : Ciphertext → Option Secret) (reply : Reply) (stage : Stage) :
    Decidable (reply.Opens opens stage) :=
  inferInstanceAs (Decidable (∀ c ∈ stage.ciphertext?, ∀ secret ∈ opens c, _))

instance decidableCreates (opens : Ciphertext → Option Secret) (name : String) (secret : Secret)
    (s : Store) : (m : Move) → Decidable (Creates opens name secret s m)
  | .call _ n operation =>
    inferInstanceAs (Decidable (n = name → operation = .get ∨ operation = .create secret))
  | .step id reply => inferInstanceAs (Decidable (∀ call ∈ s.calls.find? id, call.name = name →
      reply.Opens opens call.stage ∧
        ∀ stage ∈ (s.step id reply).stage? id, stage.isFailure = false))
  | .wait _ | .beginSweep _ | .finishSweep _ | .evict _ => isTrue trivial

/-- A stage of a call that has found no key, or a secret, or nothing yet. -/
def Stage.Finds (secret : Secret) : Stage → Prop
  | .leave outcome | .finished outcome =>
    outcome = .error .keyNotFound ∨ outcome = .ok (.secret secret)
  | _ => True

/-- While a secret is created and read, its record is whole when it is not being written, and
nobody finds anything else. -/
structure Whole (opens : Ciphertext → Option Secret) (s : Store) (name : String)
    (secret : Secret) : Prop where
  operation : ∀ id call, s.calls.find? id = some call → call.name = name →
    call.operation = .get ∨ call.operation = .create secret
  /-- No file is to be removed again. -/
  noRollBack : ∀ id fault, ¬s.WorksOn name id (.rollBack fault)
  record : ∀ record, s.record? name = some record →
    secretOf s.settings opens record = some secret ∨
      ∃ id w, s.WorksOn name id w ∧ w.isDraft = true
  finds : ∀ id call, s.calls.find? id = some call → call.name = name → call.operation = .get →
    call.stage.Finds secret

section

variable {opens : Ciphertext → Option Secret} {s t : Store} {id j : Nat} {name : String}
  {reply : Reply} {call : Call} {stage : Stage} {change : Change} {secret : Secret} {w : Work}

theorem whole_new {settings : Settings} {disk : Disk} {now : Nat}
    (hnone : (new settings disk now).record? name = none) :
    (new settings disk now).Whole opens name secret where
  operation id call hcall := by simp [new] at hcall
  noRollBack id fault := by
    rintro ⟨call, hcall, -⟩
    simp [new] at hcall
  record record hrecord := by
    rw [hnone] at hrecord
    cases hrecord
  finds id call hcall := by simp [new] at hcall

theorem Whole.not_deleting (h : s.Whole opens name secret) (hsound : s.Sound)
    (hid : s.WorksOn name id w) (hdeletes : ∀ operation, w.Fits s.settings operation →
      operation = .delete) : False := by
  obtain ⟨call, hcall, hname, hstage⟩ := hid
  have hfits := hsound.fits id call hcall
  rw [hstage] at hfits
  have hdelete := hdeletes _ hfits.2
  rcases h.operation id call hcall hname with hop | hop
  · rw [hop] at hdelete
    cases hdelete
  · rw [hop] at hdelete
    cases hdelete

/-- When nobody writes, the record is that of the secret. -/
theorem Whole.secretOf_eq (h : s.Whole opens name secret)
    (hdraft : ∀ id w, s.WorksOn name id w → w.isDraft = false) {record : List UInt8}
    (hrecord : s.record? name = some record) :
    secretOf s.settings opens record = some secret := by
  refine (h.record record hrecord).resolve_right ?_
  rintro ⟨id, w, hid, hw⟩
  rw [hdraft id w hid] at hw
  cases hw

/-- When nobody writes, what a file holds is the secret. -/
theorem Whole.eq_of_backed (h : s.Whole opens name secret) {other : Secret}
    (hbacked : s.Backed opens name other)
    (hdraft : ∀ id w, s.WorksOn name id w → w.isDraft = false) : other = secret := by
  obtain ⟨record, hrecord, hopens⟩ := hbacked.record
  exact Option.some.inj (hopens.symm.trans (h.secretOf_eq hdraft hrecord))

/-- Nobody writes what is cached. -/
theorem Agreeing.not_draft_of_cached (h : s.Agreeing opens name) {other : Secret}
    (hcached : s.cached? name = some other) (hid : s.WorksOn name id w) : w.isDraft = false := by
  by_contra hdraft
  have hnone := (h.draft id w hid (by simpa using hdraft)).1
  rw [hcached] at hnone
  cases hnone

/-- Nobody writes what has been read. -/
theorem Agreeing.not_draft_of_read (h : s.Agreeing opens name) (hid : s.WorksOn name id w)
    (hread : w.hasRead = true) {w' : Work} (hj : s.WorksOn name j w') : w'.isDraft = false := by
  by_contra hdraft
  have hunread := (h.draft j w' hj (by simpa using hdraft)).2 id w hid
  rw [hread] at hunread
  cases hunread

theorem Whole.eq_of_cached (h : s.Whole opens name secret) (hsound : s.Sound)
    (hagreeing : s.Agreeing opens name) {other : Secret} (hcached : s.cached? name = some other) :
    other = secret := by
  rcases hagreeing.cached other hcached with hbacked | ⟨id, outcome, hpurges⟩
  · exact h.eq_of_backed hbacked fun id w hid => hagreeing.not_draft_of_cached hcached hid
  · exact (h.not_deleting hsound hpurges fun _ hfits => hfits).elim

/-- A record that is complete or is being written is so after a step. -/
theorem Whole.record_advances (h : s.Whole opens call.name secret) (hsound : s.Sound)
    (hfiles : s.settings.backend ≠ .memory) (hcarrying : Carrying opens s)
    (hagreeing : s.Agreeing opens call.name) (hcall : s.calls.find? id = some call)
    (hfaultless : stage.isFailure = false)
    (hadv : s.Advances t id call reply change stage) (record : List UInt8)
    (hrecord : t.record? call.name = some record) :
    secretOf s.settings opens record = some secret ∨
      ∃ j w, t.WorksOn call.name j w ∧ w.isDraft = true := by
  obtain ⟨name, operation, before⟩ := call
  have hfits := hsound.fits id _ hcall
  have hcarries := hcarrying id _ hcall
  dsimp only at h hfits hcarries hagreeing hadv hrecord ⊢
  have hworks {w : Work} (hw : before = .work w) : s.WorksOn name id w := ⟨_, hcall, rfl, hw⟩
  rw [hadv.record, if_pos rfl] at hrecord
  -- the call goes on writing
  have hwriting {w : Work} (hstage : stage = .work w) (hw : w.isDraft = true) :
      ∃ j w, t.WorksOn name j w ∧ w.isDraft = true :=
    ⟨id, w, hadv.worksOn_iff.2 (by rw [if_pos rfl]; exact ⟨rfl, hstage⟩), hw⟩
  -- another call may be writing
  have hkeep (hsame : s.record? name = some record)
      (hidle : ∀ w, before = .work w → w.isDraft = false) :
      secretOf s.settings opens record = some secret ∨
        ∃ j w, t.WorksOn name j w ∧ w.isDraft = true := by
    refine (h.record record hsame).imp_right ?_
    rintro ⟨j, w, hj, hw⟩
    refine ⟨j, w, hadv.worksOn_iff.2 ?_, hw⟩
    rw [if_neg]
    · exact hj
    · rintro rfl
      rw [hidle w (hj.of_call hcall).2] at hw
      cases hw
  have hnext := hadv.next
  cases hnext with
  | fileMade | wroteSome => exact .inr (hwriting rfl rfl)
  | @wroteAll x bytes content written limit hcontent hlast =>
    -- the last bytes complete the record of the one secret that is created
    obtain ⟨hbefore, -, hpart⟩ := hagreeing.sees id _ (hworks rfl)
    obtain rfl := Option.some.inj (hcontent.symm.trans hpart)
    have hsecret : x = secret := by
      rcases h.operation id _ hcall rfl with hop | hop
      · cases hop.symm.trans hfits.2.1
      · exact (Operation.create.inj (hop.symm.trans hfits.2.1)).symm
    rw [Change.recordAfter, Disk.overwrite_take bytes hbefore.le,
      List.take_of_length_le hlast] at hrecord
    obtain rfl := Option.some.inj hrecord
    rw [← hsecret]
    exact .inl (hcarries x bytes rfl).secretOf_eq
  | writeFailed | flushFailed | syncFailed => cases hfaultless
  | rolledBack | notRolledBack => exact absurd (hworks rfl) (h.noRollBack id _)
  | inserted | insertTaken => exact absurd hfits.2.2 hfiles
  -- these are steps of a call that deletes the key
  | removed | removedNothing | notRemoved | purged =>
    exact (h.not_deleting hsound (hworks rfl) fun _ hdelete => hdelete).elim
  | _ => exact hkeep hrecord (by simp [Work.isDraft])

/-- Who reads the key goes on finding none or the secret. -/
theorem Whole.finds_advances (h : s.Whole opens call.name secret) (hsound : s.Sound)
    (hvalid : KeyName.Valid call.name)
    (hagreeing : s.Agreeing opens call.name) (hcall : s.calls.find? id = some call)
    (hget : call.operation = .get) (hopens : reply.Opens opens call.stage)
    (hfaultless : stage.isFailure = false)
    (hreads : call.stage = .work .read → ¬s.SomeWorks call.name Work.isDraft)
    (hadv : s.Advances t id call reply change stage) : stage.Finds secret := by
  obtain ⟨name, operation, before⟩ := call
  have hfits := hsound.fits id _ hcall
  have hfinds := h.finds id _ hcall rfl hget
  dsimp only at h hvalid hagreeing hget hopens hreads hadv hfits hfinds
  subst hget
  have hworks {w : Work} (hw : before = .work w) : s.WorksOn name id w := ⟨_, hcall, rfl, hw⟩
  -- what is read is the record of the secret
  have hrecord (hread : before = .work .read) {record : List UInt8}
      (hsome : s.record? name = some record) : secretOf s.settings opens record = some secret := by
    refine h.secretOf_eq (fun j w hj => ?_) hsome
    by_contra hdraft
    exact hreads hread (someWorks_iff.2 ⟨j, w, hj, by simpa using hdraft⟩)
  have hnext := hadv.next
  cases hnext with
  | refused herror =>
    rw [KeyName.validate_eq_ok_iff.2 hvalid] at herror
    cases herror
  | hit hheld =>
    rw [h.eq_of_cached hsound hagreeing hheld]
    exact .inr rfl
  | taken => cases hfits.2
  | notSealed => cases hfits.2
  | readNothing => exact .inl rfl
  | readFailed => cases hfaultless
  -- a whole record is neither malformed nor sealed for good
  | readMalformed hsome hkey hfault =>
    have hwhole := hrecord rfl hsome
    rw [secretOf, hkey, hfault] at hwhole
    cases hwhole
  | readUnsealable hsome hkey hfault =>
    have hwhole := hrecord rfl hsome
    rw [secretOf, hkey, hfault] at hwhole
    cases hwhole
  -- the key management system opens what the record holds
  | @notOpened c fault hfault =>
    obtain ⟨record, hreaches, hsome, hsecret⟩ := hagreeing.sees id _ (hworks rfl)
    have hdraft (j : Nat) (w : Work) (hj : s.WorksOn name j w) : w.isDraft = false :=
      hagreeing.not_draft_of_read (hworks rfl) rfl hj
    have hwhole := h.secretOf_eq hdraft hsome
    have hopened := hopens c rfl secret (hsecret.symm.trans hwhole)
    rw [hfault] at hopened
    cases hopened
  | @cachedRead x =>
    refine .inr ?_
    cases hcached : s.cached? name with
    | none =>
      have hbacked : s.Backed opens name x := hagreeing.sees id _ (hworks rfl)
      rw [Option.getD_none, h.eq_of_backed hbacked fun j w hj =>
        hagreeing.not_draft_of_read (hworks rfl) rfl hj]
    | some y => rw [Option.getD_some, h.eq_of_cached hsound hagreeing hcached]
  | left => exact hfinds
  | finished => exact hfinds
  -- no call that reads comes here
  | directoryFailed | fileExists | fileFailed | rolledBack | notRolledBack | insertTaken
  | cachedCreated | purged => simp [Work.Fits, Stage.Fits] at hfits
  | _ => trivial

/-- Each step for the key keeps its record whole, if nobody reads what is being written. -/
theorem Whole.advances (h : s.Whole opens call.name secret) (hsound : s.Sound)
    (hfiles : s.settings.backend ≠ .memory) (hvalid : KeyName.Valid call.name)
    (hcarrying : Carrying opens s) (hagreeing : s.Agreeing opens call.name)
    (hcall : s.calls.find? id = some call) (hopens : reply.Opens opens call.stage)
    (hfaultless : stage.isFailure = false)
    (hreads : call.stage = .work .read → ¬s.SomeWorks call.name Work.isDraft)
    (hadv : s.Advances t id call reply change stage) : t.Whole opens call.name secret where
  operation := hadv.forall_calls (fun _ => h.operation id call hcall rfl)
    fun j other _ => h.operation j other
  noRollBack j fault hj := by
    rw [hadv.worksOn_iff] at hj
    split at hj
    · obtain ⟨-, rfl⟩ := hj
      cases hfaultless
    · exact h.noRollBack j fault hj
  record record hrecord := by
    rw [hadv.settings]
    exact h.record_advances hsound hfiles hcarrying hagreeing hcall hfaultless hadv record hrecord
  finds := hadv.forall_calls
    (fun _ hget =>
      h.finds_advances hsound hvalid hagreeing hcall hget hopens hfaultless hreads hadv)
    fun j other _ => h.finds j other

/-- What leaves the file and the calls alone, but for new ones that create or read, keeps the record
whole. -/
theorem Whole.spares (h : s.Whole opens name secret) (hspares : s.Spares t name)
    (hworks : ∀ j w, t.WorksOn name j w ↔ s.WorksOn name j w)
    (hcalls : ∀ j other, t.calls.find? j = some other → other.name = name →
      s.calls.find? j = some other ∨ other.stage = .start ∧
        (other.operation = .get ∨ other.operation = .create secret)) :
    t.Whole opens name secret where
  operation j other hother hname :=
    (hcalls j other hother hname).elim (fun hold => h.operation j other hold hname) And.right
  noRollBack j fault hj := h.noRollBack j fault ((hworks j _).1 hj)
  record record hrecord := by
    rw [hspares.settings]
    rw [hspares.record] at hrecord
    refine (h.record record hrecord).imp_right ?_
    rintro ⟨j, w, hj, hw⟩
    exact ⟨j, w, (hworks j w).2 hj, hw⟩
  finds j other hother hname hget := by
    rcases hcalls j other hother hname with hold | ⟨hstart, -⟩
    · exact h.finds j other hold hname hget
    · rw [hstart]
      trivial

/-! ### Reading a part of a record -/

/-- What nobody should find who reads a key. -/
def Misread (secret : Secret) : Outcome → Prop
  | .error .keySealed | .error (.malformedSecret _) => True
  | .ok (.secret other) => other ≠ secret
  | _ => False

variable {settings : Settings} {record : List UInt8} {written : Nat}

/-- Without a master key, a part of a record is the record of a shorter secret, or of none. -/
theorem Seals.ne_of_part (h : Seals settings opens secret record)
    (hkey : settings.masterKey = none) (hpart : written < record.length) {other : Secret}
    (hread : Secret.ofRecord (settings.backend.readable (record.take written)) = .ok other) :
    other ≠ secret := by
  rintro rfl
  -- the part has fewer than the two digits that each byte of the secret takes
  have hlength : (record.take written).length = written := List.length_take_of_le hpart.le
  have hwhole : record.length = 2 * other.size := by
    rw [Seals, hkey] at h
    rw [h, length_plainRecord]
  rw [readable_of_length_le _ (by rw [hlength]; exact hpart.le.trans h.length_le)] at hread
  have hsize := Secret.size_le_of_ofRecord hread
  omega

/-- With a master key, a part of a record is no record. -/
theorem Seals.ofRecord_part (h : Seals settings opens secret record)
    (hkey : settings.masterKey ≠ none) (hpart : written < record.length) :
    Ciphertext.ofRecord (settings.backend.readable (record.take written)) =
      .error .malformedCiphertext := by
  have hlength : (record.take written).length = written := List.length_take_of_le hpart.le
  obtain ⟨key, hkey⟩ := Option.ne_none_iff_exists'.1 hkey
  rw [readable_of_length_le _ (by rw [hlength]; exact hpart.le.trans h.length_le)]
  rw [Seals, hkey] at h
  obtain ⟨c, -, -, rfl⟩ := h
  refine Ciphertext.ofRecord_eq_error_of_prefix (List.take_prefix _ _) fun hsame => ?_
  rw [hsame] at hlength
  exact absurd hlength hpart.ne'

/-- A call that gives back its lock ends as it had to. -/
theorem outcome?_step_of_leave (hsound : s.Sound) {outcome : Outcome}
    (hcall : s.calls.find? id = some call) (hstage : call.stage = .leave outcome) (reply : Reply) :
    (s.step id reply).Sound ∧ (s.step id reply).outcome? id = some outcome := by
  obtain ⟨change, stage, hadv⟩ := exists_advances hcall (hsound.fits id call hcall) reply
  have hnext := hadv.next
  rw [hstage] at hnext
  cases hnext
  have hcall' : (s.step id reply).calls.find? id =
      some { call with stage := .finished outcome } := by
    rw [hadv.calls, if_pos rfl]
  exact ⟨hsound.advances hcall hadv, outcome?_eq_some_iff.2 ⟨_, hcall', rfl⟩⟩

/-- A call that gives back its lock has ended two steps later, too. -/
theorem outcome?_run_of_leave (hsound : s.Sound) {outcome : Outcome}
    (hcall : s.calls.find? id = some call) (hstage : call.stage = .leave outcome)
    (again again' : Reply) :
    (s.run [.step id again, .step id again']).outcome? id = some outcome := by
  obtain ⟨hsound', hover⟩ := outcome?_step_of_leave hsound hcall hstage again
  have hlegal : Legal (fun _ _ => True) (s.step id again) [.step id again'] :=
    ⟨trivial, trivial, trivial⟩
  rw [run_cons]
  exact outcome?_run hsound' hlegal hover

/-- Who reads the file while it is written, and makes its next steps, finds what nobody should. -/
theorem Whole.misreads (h : s.Whole opens name secret) (hsound : s.Sound)
    (hcarrying : Carrying opens s) (hagreeing : s.Agreeing opens name)
    (hreader : s.WorksOn name id .read) (hwriter : s.SomeWorks name Work.isDraft)
    (hfaultless : ∀ stage ∈ (s.step id reply).stage? id, stage.isFailure = false)
    (again again' : Reply) :
    ∃ outcome, (s.run [.step id reply, .step id again, .step id again']).outcome? id =
      some outcome ∧ Misread secret outcome := by
  obtain ⟨j, w, hj, hdraft⟩ := someWorks_iff.1 hwriter
  have hnone : s.cached? name = none := (hagreeing.draft j w hj hdraft).1
  have hsees := hagreeing.sees j w hj
  -- the writer has stored a part of the record of the secret
  obtain ⟨x, record, written, rfl⟩ : ∃ x record written, w = .write x record written := by
    cases w with
    | write x record written => exact ⟨x, record, written, rfl⟩
    | rollBack fault => exact absurd hj (h.noRollBack j fault)
    | _ => cases hdraft
  obtain ⟨hpart, hreaches, hrecord⟩ := hsees
  obtain ⟨writer, hcreates, hname, hwrites⟩ := hj
  have hseals : Seals s.settings opens secret record := by
    have hfits := hsound.fits j writer hcreates
    have hcarries := hcarrying j writer hcreates
    rw [hwrites] at hfits hcarries
    have hseals := hcarries x record rfl
    rcases h.operation j writer hcreates hname with hop | hop
    · cases hop.symm.trans hfits.2.1
    · rwa [← Operation.create.inj (hop.symm.trans hfits.2.1)] at hseals
  -- the reader takes it for a whole one
  obtain ⟨call, hcall, rfl, hstage⟩ := hreader
  obtain ⟨change, stage, hadv⟩ := exists_advances hcall (hsound.fits id call hcall) reply
  have hsound' := hsound.advances hcall hadv
  have hcall' : (s.step id reply).calls.find? id = some { call with stage } := by
    rw [hadv.calls, if_pos rfl]
  have hnoFailure : stage.isFailure = false :=
    hfaultless stage (by rw [stage?, hcall']; rfl)
  have hnext := hadv.next
  rw [hstage] at hnext
  rw [run_cons]
  cases hnext with
  | readNothing hmissing =>
    rw [hmissing hreaches] at hrecord
    cases hrecord
  | readFailed => cases hnoFailure
  | @readSecret bytes other hbytes _ hkey hread =>
    -- the part is the record of another secret, which the next step caches and gives
    obtain rfl := Option.some.inj (hbytes.symm.trans hrecord)
    obtain ⟨change', stage', hadv'⟩ := exists_advances hcall' (hsound'.fits id _ hcall') again
    have hcached : (s.step id reply).cached? call.name = none := by
      rw [hadv.cached, if_pos rfl]
      exact hnone
    have hnext' := hadv'.next
    dsimp only at hnext'
    cases hnext'
    refine ⟨.ok (.secret other), ?_, hseals.ne_of_part hkey hpart hread⟩
    have hcall'' : ((s.step id reply).step id again).calls.find? id =
        some { call with stage := .leave (.ok (.secret other)) } := by
      rw [hadv'.calls, if_pos rfl, hcached]
      rfl
    exact (outcome?_step_of_leave (hsound'.advances hcall' hadv') hcall'' rfl again').2
  | @readMalformed bytes fault hbytes hkey hread =>
    exact ⟨_, outcome?_run_of_leave hsound' hcall' rfl again again', trivial⟩
  | @readCiphertext bytes c key hbytes _ hkey hread =>
    -- no part of a record is the record of a ciphertext
    obtain rfl := Option.some.inj (hbytes.symm.trans hrecord)
    rw [hseals.ofRecord_part (by simp [hkey]) hpart] at hread
    cases hread
  | readUnsealable hbytes hkey hread =>
    exact ⟨_, outcome?_run_of_leave hsound' hcall' rfl again again', trivial⟩

/-- Who reads the record of a ciphertext that cannot be read finds a sealed key. -/
theorem WorksOn.finds_sealed {c : Ciphertext} (hsound : s.Sound)
    (hkey : s.settings.masterKey ≠ none) (hunreadable : ¬c.Readable)
    (hreader : s.WorksOn name id .read) (hreaches : s.Reaches name)
    (hrecord : s.record? name = some c.toRecord)
    (hfaultless : ∀ stage ∈ (s.step id reply).stage? id, stage.isFailure = false)
    (again again' : Reply) :
    (s.run [.step id reply, .step id again, .step id again']).outcome? id =
      some (.error .keySealed) := by
  obtain ⟨call, hcall, rfl, hstage⟩ := hreader
  obtain ⟨change, stage, hadv⟩ := exists_advances hcall (hsound.fits id call hcall) reply
  have hcall' : (s.step id reply).calls.find? id = some { call with stage } := by
    rw [hadv.calls, if_pos rfl]
  have hnoFailure : stage.isFailure = false :=
    hfaultless stage (by rw [stage?, hcall']; rfl)
  have hnext := hadv.next
  rw [hstage] at hnext
  rw [run_cons]
  cases hnext with
  | readNothing hmissing =>
    rw [hmissing hreaches] at hrecord
    cases hrecord
  | readFailed => cases hnoFailure
  | readSecret _ _ hnoKey => exact absurd hnoKey hkey
  | readMalformed _ hnoKey => exact absurd hnoKey hkey
  | @readCiphertext bytes c' key hbytes _ hkey' hread =>
    obtain rfl := Option.some.inj (hbytes.symm.trans hrecord)
    obtain ⟨error, hrefused⟩ := ofRecord_readable_toRecord s.settings.backend hunreadable
    cases hrefused.symm.trans hread
  | readUnsealable =>
    exact outcome?_run_of_leave (hsound.advances hcall hadv) hcall' rfl again again'

/-! ### Runs -/

variable {disk : Disk} {now : Nat} {moves : List Move} {directory : String}

/-- The record is whole, and agrees with what is cached, after a run in which nobody reads what is
being written. -/
theorem Legal.whole (hfiles : settings.backend = .files directory) (hvalid : KeyName.Valid name)
    (hnone : (new settings disk now).record? name = none)
    (hlegal : Legal (fun s m => Honest opens s m ∧ Creates opens name secret s m ∧
      RaceFree name s m) (new settings disk now) moves) :
    let s := (new settings disk now).run moves
    s.settings = settings ∧ Carrying opens s ∧ s.Agreeing opens name ∧
      s.Whole opens name secret := by
  refine (hlegal.keeps (P := fun s => s.settings = settings ∧ Carrying opens s ∧
    s.Agreeing opens name ∧ s.Whole opens name secret) ?_ ?_ ?_ (sound_new settings disk now)
    ⟨rfl, carrying_new settings disk now, agreeing_new, whole_new hnone⟩).2
  case refine_1 =>
    rintro s id n operation - ⟨hsettings, hcarrying, hagreeing, hwhole⟩ hfresh ⟨-, hcreates, -⟩
    refine ⟨hsettings, hcarrying.newCall, hagreeing.newCall hfresh,
      hwhole.spares (spares_call s id n operation name) (fun _ _ => worksOn_call_iff hfresh) ?_⟩
    intro j other hother hname
    rw [Store.call, FiniteMap.find?_insert] at hother
    split at hother
    · obtain rfl := Option.some.inj hother
      exact .inr ⟨rfl, hcreates hname⟩
    · exact .inl hother
  case refine_2 =>
    rintro s id call reply change stage hsound ⟨hsettings, hcarrying, hagreeing, hwhole⟩ hcall
      ⟨hhonest, hcreates, hrace⟩ hadv
    have hhonest := hhonest call hcall
    have hfiles' : s.settings.backend ≠ .memory := by
      rw [hsettings, hfiles]
      simp
    refine ⟨hadv.settings.trans hsettings, hcarrying.advances hcall hhonest hadv, ?_⟩
    by_cases hname : call.name = name
    · subst hname
      obtain ⟨hopens, hfaultless⟩ := hcreates call hcall rfl
      obtain ⟨hreads, hfails⟩ := hrace call hcall rfl
      have hstage : (s.step id reply).stage? id = some stage := by
        rw [stage?, hadv.calls, if_pos rfl]
        rfl
      -- nothing fails, so that no file is to be removed again
      have hrolls (hrollBack : call.stage.work?.any Work.isRollBack = true) : False := by
        rw [Option.any_eq_true] at hrollBack
        obtain ⟨w, hw, hrollBack⟩ := hrollBack
        cases w with
        | rollBack fault =>
          exact hwhole.noRollBack id fault ⟨call, hcall, rfl, Stage.work?_eq_some_iff.1 hw⟩
        | _ => cases hrollBack
      exact ⟨hagreeing.advances hfiles' hsound hcarrying hcall hhonest (fun h => (hrolls h).elim)
          hreads (hfails stage hstage) hadv,
        hwhole.advances hsound hfiles' hvalid hcarrying hagreeing hcall hopens
          (hfaultless stage hstage) hreads hadv⟩
    · have hrecord : (s.step id reply).record? name = s.record? name := by
        rw [hadv.record, if_neg fun h => hname h.symm]
      refine ⟨hagreeing.elsewhere hcall hadv hname, hwhole.spares (hadv.spares hrecord)
        (fun _ _ => hadv.worksOn_iff_of_ne hcall hname) fun j other hother hsame => .inl ?_⟩
      rw [hadv.calls] at hother
      split at hother
      · obtain rfl := Option.some.inj hother
        exact absurd hsame hname
      · exact hother
  case refine_3 =>
    rintro s t - ⟨hsettings, hcarrying, hagreeing, hwhole⟩ hfades
    refine ⟨hfades.settings.trans hsettings, hcarrying.fades hfades, hagreeing.fades hfades,
      hwhole.spares (hfades.spares name) (fun _ _ => hfades.worksOn_iff) ?_⟩
    intro j other hother _
    rw [hfades.calls] at hother
    exact .inl hother

/-- **A new key is found whole or not at all.** While a secret is created under a name of which
there is no file, whoever reads the key finds none or the secret, if nobody reads the file while it
is written.

Both conditions are needed. Whoever is the first to read the file while it is written can find a
sealed or malformed key or another secret, and whoever reads the file of a ciphertext that cannot be
read finds a sealed key. -/
theorem finds_whole_secret (hfiles : settings.backend = .files directory)
    (hvalid : KeyName.Valid name) (hnone : (new settings disk now).record? name = none)
    (hlegal : Legal (fun _ _ => True) (new settings disk now) moves)
    (hs : (new settings disk now).run moves = s) :
    (Legal (fun s m => Honest opens s m ∧ Creates opens name secret s m ∧ RaceFree name s m)
        (new settings disk now) moves →
      (∀ id call outcome, s.calls.find? id = some call → call.name = name →
        call.operation = .get → s.outcome? id = some outcome →
          outcome = .error .keyNotFound ∨ outcome = .ok (.secret secret)) ∧
      ∀ id reply again again', s.WorksOn name id .read → s.SomeWorks name Work.isDraft →
        Creates opens name secret s (.step id reply) →
          ∃ outcome, (s.run [.step id reply, .step id again, .step id again']).outcome? id =
            some outcome ∧ Misread secret outcome) ∧
    ∀ id (c : Ciphertext) reply again again', settings.masterKey ≠ none →
      s.WorksOn name id .read → s.disk.read (path directory name) = .ok c.toRecord → ¬c.Readable →
        Creates opens name secret s (.step id reply) →
          (s.run [.step id reply, .step id again, .step id again']).outcome? id =
            some (.error .keySealed) := by
  have hsound : s.Sound := hs ▸ hlegal.sound (sound_new settings disk now)
  have hsettings : s.settings = settings := hs ▸ hlegal.settings_eq (sound_new settings disk now)
  -- a step of a call that works on the name does not fail
  have hfaultless {id : Nat} {reply : Reply} (hreader : s.WorksOn name id .read)
      (hcreates : Creates opens name secret s (.step id reply)) :
      ∀ stage ∈ (s.step id reply).stage? id, stage.isFailure = false := by
    obtain ⟨call, hcall, hname, -⟩ := hreader
    exact (hcreates call hcall hname).2
  refine ⟨fun hcalm => ?_, ?_⟩
  · obtain ⟨-, hcarrying, hagreeing, hwhole⟩ := hcalm.whole hfiles hvalid hnone
    rw [hs] at hcarrying hagreeing hwhole
    refine ⟨fun id call outcome hcall hname hget houtcome => ?_,
      fun id reply again again' hreader hwriter hcreates => ?_⟩
    · obtain ⟨_, hcall', hover⟩ := outcome?_eq_some_iff.1 houtcome
      obtain rfl := Option.some.inj (hcall'.symm.trans hcall)
      have hfinds := hwhole.finds id _ hcall hname hget
      rwa [hover] at hfinds
    · exact hwhole.misreads hsound hcarrying hagreeing hreader hwriter
        (hfaultless hreader hcreates) again again'
  · intro id c reply again again' hkey hreader hread hunreadable hcreates
    have hfiles' : s.settings.backend = .files directory := by rw [hsettings, hfiles]
    obtain ⟨hlocate, hrecord⟩ := (Disk.read_eq_ok_iff hvalid).1 hread
    exact hreader.finds_sealed hsound (by rwa [hsettings]) hunreadable
      (reaches_of_files hfiles' hlocate) (by rwa [record?, hfiles'])
      (hfaultless hreader hcreates) again again'

end

namespace Sample

/-- A key is read before its file is made, and another call is about to read it when nothing is
written yet. -/
def readTwice : List Move :=
  .call 1 "a" .get :: .call 2 "a" (.create secret) :: steps 2 8 ++ steps 1 7 ++ steps 2 1 ++
    .call 3 "a" .get :: steps 3 5

/-- A key is read when its file has been made, and nothing is written yet. -/
def readHalfDone : List Move :=
  .call 1 "a" (.create secret) :: steps 1 9 ++ .call 2 "a" .get :: steps 2 7 ++ steps 1 5

/-- A key is read when two of its four digits are written. -/
def readHalfWritten : List Move :=
  .call 1 "a" (.create secret) :: steps 1 8 ++ .step 1 (reply 1) :: .call 2 "a" .get ::
    steps 2 8 ++ steps 1 5

end Sample

/-- Who reads a key before its file is made finds none, and who reads it now finds what nobody
should. -/
theorem finds_whole_secret_readTwice :
    let s := (Sample.filesWith (some "k")).run Sample.readTwice
    (∃ outcome, s.outcome? 1 = some outcome ∧
      (outcome = .error .keyNotFound ∨ outcome = .ok (.secret Sample.secret))) ∧
    ∃ outcome, (s.run (Sample.steps 3 3)).outcome? 3 = some outcome ∧
      Misread Sample.secret outcome := by
  intro s
  have hlegal : Legal (fun _ _ => True) (Sample.filesWith (some "k")) Sample.readTwice := by
    decide +kernel
  have hcalm : Legal (fun s m => Honest Sample.opens s m ∧
      Creates Sample.opens "a" Sample.secret s m ∧ RaceFree "a" s m) (Sample.filesWith (some "k"))
        Sample.readTwice := by decide +kernel
  have hnone : (Sample.filesWith (some "k")).record? "a" = none := by decide +kernel
  have hvalid : KeyName.Valid "a" := by decide +kernel
  obtain ⟨hfinds, hmisreads⟩ := (finds_whole_secret rfl hvalid hnone hlegal rfl).1 hcalm
  have hfirst : s.calls.find? 1 = some ⟨"a", .get, .finished (.error .keyNotFound)⟩ := by
    decide +kernel
  have houtcome : s.outcome? 1 = some (.error .keyNotFound) := by decide +kernel
  have hthird : s.calls.find? 3 = some ⟨"a", .get, .work .read⟩ := by decide +kernel
  have hwriter : s.SomeWorks "a" Work.isDraft := by decide +kernel
  have hcreates : Creates Sample.opens "a" Sample.secret s (.step 3 (Sample.reply 100)) := by
    decide +kernel
  exact ⟨⟨_, houtcome, hfinds 1 _ _ hfirst rfl rfl houtcome⟩,
    hmisreads 3 _ _ _ ⟨_, hthird, rfl, rfl⟩ hwriter hcreates⟩

/-- A key that is read while it is created is found sealed with a master key, and is found to be
another secret without one. -/
theorem misread_while_created :
    let s := (Sample.filesWith (some "k")).run Sample.readHalfDone
    let t := (Sample.filesWith none).run Sample.readHalfWritten
    Legal (fun s m => Honest Sample.opens s m ∧ Creates Sample.opens "a" Sample.secret s m)
        (Sample.filesWith (some "k")) Sample.readHalfDone ∧
      Legal (fun s m => Honest Sample.opens s m ∧ Creates Sample.opens "a" Sample.secret s m)
        (Sample.filesWith none) Sample.readHalfWritten ∧
      s.outcome? 1 = some (.ok .done) ∧ s.outcome? 2 = some (.error .keySealed) ∧
      t.outcome? 1 = some (.ok .done) ∧
      t.outcome? 2 = some (.ok (.secret ⟨[0xaa], by decide, by decide⟩)) := by
  decide +kernel

end Keyring.Store
