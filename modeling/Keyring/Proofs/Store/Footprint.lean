import Keyring.Proofs.Disk.Locality
import Keyring.Proofs.Store.Completion
import Keyring.Proofs.Store.OwnFile

/-!
# What a call has to do with the disk

A call under a name that cannot name a key does nothing. Any other call of a store of files finds
its way to the file of its key and looks at that file, and changes nothing but what
`Disk.ConfinedTo` allows: what else is on the disk plays no part.

- `Path.IsChild`, `isChild_path`: the path of a key is one part below the directory of the store;
- `withDisk`, `SameAlong`: two stores that differ in their disks only, which agree along a path;
- `sameAlong_perform`, `sameAlong_step`: their calls make the same step;
- `Refusing`: calls under names that cannot name a key;
- `call_touches_own_file`: what a call sees and does.
-/

namespace Keyring

/-- A path leads through the directory of another one to an entry of it. -/
structure Path.IsChild (directory name path : String) : Prop where
  /-- The name is the only part that is added. -/
  parts : Path.parts path = Path.parts directory ++ [name]
  absolute : Path.isAbsolute path = Path.isAbsolute directory
  /-- The path may lead to a file. -/
  slash : Path.endsInSlash path = false
  /-- The part that is added leads neither nowhere nor up, and is one part. -/
  ordinary : name ≠ "" ∧ name ≠ "." ∧ name ≠ ".." ∧ '/' ∉ name.toList

namespace Store

variable {s t : Store} {id : Nat} {name directory : String} {operation : Operation} {call : Call}
  {reply : Reply} {e : Disk} {w : Work}

/-- The path of a key is one part below the directory. -/
theorem isChild_path (hvalid : KeyName.Valid name) (directory : String) :
    Path.IsChild directory name (path directory name) := by
  obtain ⟨hempty, -, hdot, hdots, -⟩ := KeyName.valid_iff.1 hvalid
  exact ⟨Path.parts_join hvalid, Path.isAbsolute_join hvalid, Path.endsInSlash_join hvalid, hempty,
    hdot, hdots, KeyName.slash_notMem_of_valid hvalid⟩

/-- Different keys have different paths. -/
theorem path_injective {other : String} (hvalid : KeyName.Valid name)
    (hother : KeyName.Valid other) (h : path directory other = path directory name) :
    other = name := by
  have hparts := (isChild_path hother directory).parts
  rw [h, (isChild_path hvalid directory).parts] at hparts
  simpa using hparts.symm

/-! ### Two stores on disks that agree -/

/-- A store with another disk. -/
def withDisk (s : Store) (e : Disk) : Store := { s with disk := e }

/-- Two stores with the stages of a call, which differ in their disks only; these agree along a
path. -/
def SameAlong (path : String) (p q : Store × Stage) : Prop :=
  ∃ e, p.1.disk.AgreeAlong path e ∧ q = (p.1.withDisk e, p.2)

/-- Whether some work calls the file system for what it finds there or for a change. -/
def Work.usesDisk : Work → Bool
  | .read => true
  | w => w.changesDisk

theorem withDisk_startSweeps (s : Store) (e : Disk) :
    (s.withDisk e).startSweeps = s.startSweeps.withDisk e := by
  cases hstarted : s.started <;> simp [startSweeps, withDisk, hstarted]

theorem withDisk_understand (s : Store) (e : Disk) (name : String) (record : List UInt8) :
    (s.withDisk e).understand name record =
      ((s.understand name record).1.withDisk e, (s.understand name record).2) := by
  simp only [understand, withDisk]
  split <;> split <;> rfl

/-- Other steps take no notice of the disk. -/
theorem perform_withDisk (h : ∀ w, call.stage = .work w → w.usesDisk = false) (e : Disk) :
    (s.withDisk e).perform id call reply =
      ((s.perform id call reply).1.withDisk e, (s.perform id call reply).2) := by
  obtain ⟨name, operation, stage⟩ := call
  cases stage with
  | start =>
    simp only [perform, begin, withDisk_startSweeps]
    split <;> rfl
  | lookUpNew secret =>
    simp only [perform, lookUpNew, withDisk]
    split <;> rfl
  | lookUp =>
    simp only [perform, lookUp, withDisk]
    split <;> rfl
  | record secret =>
    simp only [perform, makeRecord, withDisk]
    split <;> rfl
  | encrypt secret =>
    simp only [perform]
    cases reply.encrypted <;> rfl
  | obtain work | request work | wait work | leave outcome | finished outcome => rfl
  | work w =>
    have hw := h w rfl
    simp only [perform]
    cases w with
    | makeDirectory | createFile | write | rollBack | read | remove => cases hw
    | flush secret | sync secret =>
      simp only [doWork]
      cases reply.device <;> rfl
    | insert secret record =>
      simp only [doWork, insert, withDisk]
      split <;> rfl
    | decrypt c =>
      simp only [doWork]
      cases reply.decrypted <;> rfl
    | cacheCreated secret | cacheRead secret | purge outcome => rfl

/-! ### Work on the disk -/

section

variable (h : s.disk.AgreeAlong (path directory name) e)

include h

theorem sameAlong_makeDirectory (hvalid : KeyName.Valid name) (secret : Secret)
    (record : List UInt8) (device : Disk.Reply) :
    SameAlong (path directory name) (s.makeDirectory directory name secret record device)
      ((s.withDisk e).makeDirectory directory name secret record device) := by
  unfold makeDirectory withDisk
  cases device with
  | refuse fault => exact ⟨e, h, rfl⟩
  | accept limit =>
    obtain ⟨hdisks, hresult⟩ := h.makeDirectories (Path.above_join hvalid) 0o700
    dsimp only
    generalize s.disk.makeDirectories directory 0o700 = made at *
    generalize e.makeDirectories directory 0o700 = made' at *
    obtain ⟨d, result⟩ := made
    obtain ⟨d', result'⟩ := made'
    obtain rfl : result = result' := hresult
    -- also the directories that were made before a failure are the same
    cases result with
    | error fault => exact ⟨d', hdisks, rfl⟩
    | ok => exact ⟨d', hdisks, rfl⟩

theorem sameAlong_createFile (secret : Secret) (record : List UInt8) (device : Disk.Reply) :
    SameAlong (path directory name) (s.createFile directory name secret record device)
      ((s.withDisk e).createFile directory name secret record device) := by
  unfold createFile withDisk
  cases device with
  | refuse fault => exact ⟨e, h, rfl⟩
  | accept limit =>
    have hmade := h.createNew 0o600
    dsimp only
    generalize s.disk.createNew (path directory name) 0o600 = made at *
    generalize e.createNew (path directory name) 0o600 = made' at *
    cases hmade with
    | @ok d d' hdisks => exact ⟨d', hdisks, rfl⟩
    | error fault => cases fault <;> exact ⟨e, h, rfl⟩

theorem sameAlong_write (secret : Secret) (record : List UInt8) (written : Nat)
    (device : Disk.Reply) :
    SameAlong (path directory name) (s.write directory name secret record written device)
      ((s.withDisk e).write directory name secret record written device) := by
  unfold write withDisk
  cases device with
  | refuse fault => exact ⟨e, h, rfl⟩
  | accept limit =>
    have hwritten := h.writeAt written ((record.drop written).take (limit + 1))
    dsimp only
    generalize s.disk.writeAt (path directory name) written _ = result at *
    generalize e.writeAt (path directory name) written _ = result' at *
    cases hwritten with
    | @ok d d' hdisks => exact ⟨d', hdisks, rfl⟩
    | error fault => exact ⟨e, h, rfl⟩

theorem sameAlong_rollBack (fault : FileFault) (device : Disk.Reply) :
    SameAlong (path directory name) (s.rollBack directory name fault device)
      ((s.withDisk e).rollBack directory name fault device) := by
  unfold rollBack withDisk
  cases device with
  | refuse second => exact ⟨e, h, rfl⟩
  | accept limit =>
    have hremoved := h.remove
    dsimp only
    generalize s.disk.remove (path directory name) = removed at *
    generalize e.remove (path directory name) = removed' at *
    cases hremoved with
    | @ok d d' hdisks => exact ⟨d', hdisks, rfl⟩
    | error second => exact ⟨e, h, rfl⟩

variable (hfiles : s.settings.backend = .files directory)

include hfiles

theorem sameAlong_read (device : Disk.Reply) :
    SameAlong (path directory name) (s.read name device) ((s.withDisk e).read name device) := by
  have hfiles' : (s.withDisk e).settings.backend = .files directory := hfiles
  have hdisk (record : List UInt8) : (s.understand name record).1.disk = s.disk := by
    unfold understand
    split <;> split <;> rfl
  unfold read
  rw [hfiles, hfiles']
  cases device with
  | refuse fault => exact ⟨e, h, rfl⟩
  | accept limit =>
    have hread : (s.withDisk e).disk.read (path directory name) =
        s.disk.read (path directory name) := h.read_eq.symm
    dsimp only
    rw [hread]
    cases s.disk.read (path directory name) with
    | ok content =>
      refine ⟨e, ?_, withDisk_understand s e name _⟩
      rw [hdisk]
      exact h
    | error fault => cases fault <;> exact ⟨e, h, rfl⟩

theorem sameAlong_remove (device : Disk.Reply) :
    SameAlong (path directory name) (s.remove name device) ((s.withDisk e).remove name device) := by
  have hfiles' : (s.withDisk e).settings.backend = .files directory := hfiles
  unfold remove
  rw [hfiles, hfiles']
  cases device with
  | refuse fault => exact ⟨e, h, rfl⟩
  | accept limit =>
    have hremoved := h.remove
    dsimp only [withDisk]
    generalize s.disk.remove (path directory name) = removed at *
    generalize e.remove (path directory name) = removed' at *
    cases hremoved with
    | @ok d d' hdisks => exact ⟨d', hdisks, rfl⟩
    | error fault => cases fault <;> exact ⟨e, h, rfl⟩

/-- Work on the disk comes to the same on both disks. -/
theorem sameAlong_doWork (hvalid : KeyName.Valid name) (huses : w.usesDisk = true)
    (reply : Reply) :
    SameAlong (path directory name) (s.doWork name reply w)
      ((s.withDisk e).doWork name reply w) := by
  have hfiles' : (s.withDisk e).settings.backend = .files directory := hfiles
  cases w with
  | makeDirectory secret record =>
    simp only [doWork, hfiles, hfiles']
    exact sameAlong_makeDirectory h hvalid secret record reply.device
  | createFile secret record =>
    simp only [doWork, hfiles, hfiles']
    exact sameAlong_createFile h secret record reply.device
  | write secret record written =>
    simp only [doWork, hfiles, hfiles']
    exact sameAlong_write h secret record written reply.device
  | rollBack fault =>
    simp only [doWork, hfiles, hfiles']
    exact sameAlong_rollBack h fault reply.device
  | read =>
    simp only [doWork]
    exact sameAlong_read h hfiles reply.device
  | remove =>
    simp only [doWork]
    exact sameAlong_remove h hfiles reply.device
  | _ => cases huses

end

/-- A call does the same on both disks. -/
theorem sameAlong_perform (h : s.disk.AgreeAlong (path directory call.name) e)
    (hfiles : s.settings.backend = .files directory)
    (hfits : call.stage.Fits s.settings call.name call.operation) (id : Nat) (reply : Reply) :
    SameAlong (path directory call.name) (s.perform id call reply)
      ((s.withDisk e).perform id call reply) := by
  by_cases huses : ∃ w, call.stage = .work w ∧ w.usesDisk = true
  case pos =>
    obtain ⟨w, hstage, huses⟩ := huses
    rw [hstage] at hfits
    simp only [perform, hstage]
    exact sameAlong_doWork h hfiles hfits.1 huses reply
  case neg =>
    have hidle (w : Work) (hw : call.stage = .work w) : w.usesDisk = false := by
      simpa [hw] using huses
    have hdisk : (s.perform id call reply).1.disk = s.disk := by
      refine disk_perform fun w hw => ?_
      have hnone := hidle w hw
      cases w <;> first
        | exact hnone
        | rfl
    refine ⟨e, ?_, perform_withDisk hidle e⟩
    rw [hdisk]
    exact h

/-- A step of a call does the same on both disks. -/
theorem sameAlong_step (h : s.disk.AgreeAlong (path directory call.name) e)
    (hfiles : s.settings.backend = .files directory) (hcall : s.calls.find? id = some call)
    (hfits : call.stage.Fits s.settings call.name call.operation) (reply : Reply) :
    ∃ e', (s.step id reply).disk.AgreeAlong (path directory call.name) e' ∧
      (s.withDisk e).step id reply = (s.step id reply).withDisk e' := by
  obtain ⟨e', hdisks, hperform⟩ := sameAlong_perform h hfiles hfits id reply
  have hcall' : (s.withDisk e).calls.find? id = some call := hcall
  refine ⟨e', ?_, ?_⟩
  · rw [step, hcall]
    exact hdisks
  · simp only [step, hcall, hcall', hperform]
    rfl

/-! ### Names that cannot name a key -/

/-- The end of a call under a name that cannot name a key. -/
def refusalOf (name : String) (fault : KeyName.Fault) : Outcome :=
  .error (.invalidName name fault.message)

/-- A call under a name that cannot name a key has not begun, or was refused. -/
def Stage.Refused (name : String) (fault : KeyName.Fault) (stage : Stage) : Prop :=
  stage = .start ∨ stage = .finished (refusalOf name fault)

/-- All calls under names that cannot name a key have not begun, or were refused. -/
def Refusing (s : Store) : Prop :=
  ∀ id call, s.calls.find? id = some call →
    ∀ fault, KeyName.fault? call.name = some fault → call.stage.Refused call.name fault

variable {fault : KeyName.Fault}

/-- A call under a name that cannot name a key is refused at once, and does nothing else. -/
theorem perform_of_fault (hfault : KeyName.fault? call.name = some fault)
    (hrefused : call.stage.Refused call.name fault) (id : Nat) (reply : Reply) :
    s.perform id call reply = (s, .finished (refusalOf call.name fault)) := by
  rcases hrefused with hstage | hstage
  · simp only [perform, hstage, begin, KeyName.validate, hfault]
    rfl
  · simp only [perform, hstage]

theorem step_of_fault (hcall : s.calls.find? id = some call)
    (hfault : KeyName.fault? call.name = some fault)
    (hrefused : call.stage.Refused call.name fault) (reply : Reply) :
    s.step id reply = { s with
      calls :=
        s.calls.insert id { call with stage := .finished (refusalOf call.name fault) } } := by
  simp only [step, hcall, perform_of_fault hfault hrefused]

theorem Refusing.step (h : s.Refusing) (hcall : s.calls.find? id = some call) {change : Change}
    (hadv : s.Advances t id call reply change (s.perform id call reply).2) : t.Refusing := by
  refine hadv.forall_calls (fun fault hfault => ?_) fun j other _ hother => h j other hother
  have hname : KeyName.fault? call.name = some fault := hfault
  rw [perform_of_fault hname (h id call hcall fault hname)]
  exact .inr rfl

/-- A call under a name that cannot name a key is refused in every state that a store can reach. -/
theorem Admissible.refusing {allows : Store → Occurrence → Prop} {occurrences : List Occurrence}
    (hadmissible : Admissible allows s occurrences) (hsound : s.Sound) (hs : s.Refusing) :
    (s.occurAll occurrences).Refusing := by
  refine (hadmissible.keeps ?_ ?_ ?_ ?_ ?_ ?_ hsound hs).2
  case refine_1 =>
    intro u id name operation _ hu _ _
    exact forall_calls_call (fun _ _ => .inl rfl) hu
  case refine_2 =>
    intro u id call reply change stage husound hu hcall _ hadv
    obtain ⟨⟨_, hadv'⟩, -⟩ := exists_advances_perform hcall (husound.fits id call hcall) reply
    exact hu.step hcall hadv'
  case refine_3 =>
    intro u m _ hu _ _ hfades
    unfold Refusing
    rw [hfades.calls]
    exact hu
  case refine_4 => exact fun u id _ hu _ j other hother => hu j other (find?_of_abandon hother).2
  case refine_5 =>
    intro u _ _ _ j other hother
    simp [reopen, new] at hother
  case refine_6 => exact fun u disk table _ hu _ => hu

/-! ### Steps of one call -/

section

variable {replies : Nat → Reply}

/-- What each step of a call keeps holds after any number of steps of its own. -/
theorem Sound.run_ownSteps {P : Nat → Store → Prop} (hsound : s.Sound)
    (hcall : s.calls.find? id = some call) (hstart : P 0 s)
    (hstep : ∀ count t stage, t.Sound → t.settings = s.settings →
      t.calls.find? id = some { call with stage } → P count t →
        P (count + 1) (t.step id (replies count)))
    (count : Nat) : P count (s.run (ownSteps id replies count)) := by
  suffices hall : (s.run (ownSteps id replies count)).Sound ∧
      (s.run (ownSteps id replies count)).settings = s.settings ∧
        (∃ stage, (s.run (ownSteps id replies count)).calls.find? id = some { call with stage }) ∧
          P count (s.run (ownSteps id replies count)) from hall.2.2.2
  induction count with
  | zero => exact ⟨hsound, rfl, ⟨call.stage, hcall⟩, hstart⟩
  | succ count ih =>
    obtain ⟨hsound', hsettings, ⟨stage, hcall'⟩, hP⟩ := ih
    rw [run_ownSteps_succ]
    generalize s.run (ownSteps id replies count) = t at *
    obtain ⟨change, stage', hadv⟩ :=
      exists_advances hcall' (hsound'.fits id _ hcall') (replies count)
    refine ⟨hsound'.advances hcall' hadv, hadv.settings.trans hsettings, ⟨stage', ?_⟩,
      hstep count t stage hsound' hsettings hcall' hP⟩
    rw [hadv.calls, if_pos rfl]

/-- The steps of a call under a name that cannot name a key refuse it and do nothing else. -/
theorem run_of_fault (hsound : s.Sound) (hcall : s.calls.find? id = some call)
    (hfault : KeyName.fault? call.name = some fault)
    (hrefused : call.stage.Refused call.name fault) (count : Nat) :
    let t := s.run (ownSteps id replies count)
    t = { s with calls := t.calls } ∧ (∀ j, j ≠ id → t.calls.find? j = s.calls.find? j) ∧
      (0 < count → t.outcome? id = some (refusalOf call.name fault)) := by
  intro t
  suffices hall : (t = { s with calls := t.calls } ∧
      (∀ j, j ≠ id → t.calls.find? j = s.calls.find? j)) ∧
        ∃ stage, t.calls.find? id = some { call with stage } ∧ stage.Refused call.name fault ∧
          (0 < count → stage = .finished (refusalOf call.name fault)) by
    obtain ⟨⟨hsame, hothers⟩, stage, hfound, -, hended⟩ := hall
    exact ⟨hsame, hothers, fun hcount =>
      outcome?_eq_some_iff.2 ⟨_, hfound, hended hcount⟩⟩
  refine hsound.run_ownSteps (P := fun n u => (u = { s with calls := u.calls } ∧
    (∀ j, j ≠ id → u.calls.find? j = s.calls.find? j)) ∧
      ∃ stage, u.calls.find? id = some { call with stage } ∧ stage.Refused call.name fault ∧
        (0 < n → stage = .finished (refusalOf call.name fault))) hcall ?_ ?_ count
  · exact ⟨⟨rfl, fun _ _ => rfl⟩, call.stage, hcall, hrefused, fun h => absurd h (by simp)⟩
  · rintro n u - - - - ⟨⟨hsame, hothers⟩, stage, hfound, hstage, -⟩
    have hstep : u.step id (replies n) = { u with
        calls := u.calls.insert id
          { call with stage := .finished (refusalOf call.name fault) } } :=
      step_of_fault hfound hfault hstage (replies n)
    refine ⟨⟨?_, fun j hj => ?_⟩, .finished (refusalOf call.name fault), ?_, .inr rfl, fun _ => rfl⟩
    · rw [hstep, hsame]
    · rw [hstep, FiniteMap.find?_insert, if_neg (by simpa using hj)]
      exact hothers j hj
    · rw [hstep, FiniteMap.find?_insert, if_pos (by simp)]

/-- What the steps of a call do to the disk is confined to the file of its key and, if it creates
the key, to the directories of the store. -/
theorem confined_run (hsound : s.Sound) (hcall : s.calls.find? id = some call)
    (hfiles : s.settings.backend = .files directory) (count : Nat) :
    s.disk.ConfinedTo (∃ secret, call.operation = .create secret) directory call.name
      (s.run (ownSteps id replies count)).disk := by
  refine hsound.run_ownSteps (P := fun _ t => s.disk.ConfinedTo _ directory call.name t.disk) hcall
    (.refl _ _ _ _) (fun n t stage htsound hsettings hfound hconfined => hconfined.trans ?_) count
  have hfits := htsound.fits id _ hfound
  obtain ⟨-, hdisk⟩ := exists_advances_perform hfound hfits (replies n)
  rw [hdisk]
  exact confined_perform id (by rw [hsettings, hfiles]) hfits (replies n)

/-- The steps of a call do the same on disks that agree along the path of its key. -/
theorem sameAlong_run (hsound : s.Sound) (hcall : s.calls.find? id = some call)
    (hfiles : s.settings.backend = .files directory)
    (h : s.disk.AgreeAlong (path directory call.name) e) (count : Nat) :
    ∃ e', (s.run (ownSteps id replies count)).disk.AgreeAlong (path directory call.name) e' ∧
      (s.withDisk e).run (ownSteps id replies count) =
        (s.run (ownSteps id replies count)).withDisk e' := by
  refine hsound.run_ownSteps (P := fun n t => ∃ e',
    t.disk.AgreeAlong (path directory call.name) e' ∧
      (s.withDisk e).run (ownSteps id replies n) = t.withDisk e') hcall ⟨e, h, rfl⟩ ?_ count
  rintro n t stage htsound hsettings hfound ⟨e', hdisks, hrun⟩
  rw [run_ownSteps_succ, hrun]
  have hfiles' : t.settings.backend = .files directory := by rw [hsettings, hfiles]
  have hfits := htsound.fits id _ hfound
  -- the name of the call is that at the outset
  change t.disk.AgreeAlong (path directory ({ call with stage } : Call).name) e' at hdisks
  exact sameAlong_step hdisks hfiles' hfound hfits (replies n)

/-- **A call has to do with the file of its key only.** In every state that a store can reach, with
whatever calls on their way, a call makes any number of steps. If its name cannot name a key, it is
refused, and nothing else happens: no file, cache entry, event, sweep or count changes. If its name
is valid and the store keeps files, its path is one ordinary part below the directory, which no
other valid name shares, and leads to no other place; what changes on the disk is confined to the
entry there and, if it is to create the key, the directories that are missing; and on every other
disk that agrees along the path, the same is done with the same answers. -/
theorem call_touches_own_file {settings : Settings} {disk : Disk} {now : Nat}
    {occurrences : List Occurrence}
    (hrun : Admissible (fun _ _ => True) (new settings disk now) occurrences)
    (hcall : ((new settings disk now).occurAll occurrences).calls.find? id = some call)
    (replies : Nat → Reply) (count : Nat) :
    let s := (new settings disk now).occurAll occurrences
    let t := s.run (ownSteps id replies count)
    (∀ fault, KeyName.fault? call.name = some fault →
      t = { s with calls := t.calls } ∧ (∀ j, j ≠ id → t.calls.find? j = s.calls.find? j) ∧
        (0 < count →
          t.outcome? id = some (.error (.invalidName call.name fault.message)))) ∧
      (KeyName.Valid call.name → ∀ directory, settings.backend = .files directory →
        Path.IsChild directory call.name (path directory call.name) ∧
          (∀ other, KeyName.Valid other → path directory other = path directory call.name →
            other = call.name) ∧
          (∀ target, s.disk.locate (path directory call.name) = .ok target →
            target.location = s.disk.placeOf directory call.name) ∧
          s.disk.ConfinedTo (∃ secret, call.operation = .create secret) directory call.name
            t.disk ∧
          ∀ e, s.disk.AgreeAlong (path directory call.name) e →
            ∃ e', t.disk.AgreeAlong (path directory call.name) e' ∧
              (s.withDisk e).run (ownSteps id replies count) = t.withDisk e') := by
  intro s t
  have hsound : s.Sound := hrun.sound (sound_new settings disk now)
  have hsettings : s.settings = settings := hrun.settings_eq (sound_new settings disk now)
  refine ⟨fun fault hfault => ?_, fun hvalid directory hfiles => ?_⟩
  · have hrefusing : s.Refusing :=
      hrun.refusing (sound_new settings disk now) fun j other hother => by simp [new] at hother
    exact run_of_fault hsound hcall hfault (hrefusing id call hcall fault hfault) count
  · rw [← hsettings] at hfiles
    refine ⟨isChild_path hvalid directory, fun other => path_injective hvalid,
      fun target htarget => ?_,
      confined_run hsound hcall hfiles count,
      fun e hdisks => sameAlong_run hsound hcall hfiles hdisks count⟩
    obtain ⟨parent, rfl, hplace⟩ := Disk.eq_of_locate_join hvalid htarget
    exact hplace

end

/-- A key is created beside a file that is none of its business. -/
theorem call_touches_own_file_beside :
    let s := (Sample.filesWith none).call 1 "a" (.create Sample.secret)
    let beside := s.withDisk (s.disk.put ["keys", "b"] (.file 0o600 [0x00]))
    let moves := ownSteps 1 (fun _ => Sample.reply 100) 13
    (s.run moves).outcome? 1 = some (.ok .done) ∧
      s.disk.ConfinedTo (∃ secret, Operation.create Sample.secret = .create secret) "keys" "a"
        (s.run moves).disk ∧
      ∃ e, (s.run moves).disk.AgreeAlong (path "keys" "a") e ∧
        beside.run moves = (s.run moves).withDisk e := by
  intro s beside moves
  have hrun : Admissible (fun _ _ => True) (Sample.filesWith none)
      [.incident (.move (.call 1 "a" (.create Sample.secret)))] := by decide
  have hcall : s.calls.find? 1 = some ⟨"a", .create Sample.secret, .start⟩ := rfl
  have hapart : ¬s.disk.Passes (path "keys" "a") ["keys", "b"] := by decide
  obtain ⟨-, hvalid⟩ := call_touches_own_file hrun hcall (fun _ => Sample.reply 100) 13
  obtain ⟨-, -, -, hconfined, hsame⟩ := hvalid (by decide) "keys" rfl
  exact ⟨by decide +kernel, hconfined, hsame _ (.put_right (by simp) hapart _)⟩

end Store

end Keyring
