import Keyring.Proofs.Store.Alike
import Keyring.Proofs.Store.Drafts

/-!
# Steps of key stores that differ in secrets

Two calls at the same stage that differ in secrets only make the same step: both succeed, or both
fail in the same way and log the same. The disks that the steps lead to are alike again, because
each call finds in its file what it has written of its record.

- `Disk.Reply.SameFor`: a device takes the calls to the file system of two steps in the same way;
- `Both`: what two steps lead to differs in secrets only;
- `Twins.lookUp`, `Twins.understand`, `Twins.write`, …: each part of a step;
- `Twins.perform`: a step.
-/

namespace Keyring

/-- How many bytes a call has yet to write. -/
def Store.Stage.unwritten? : Store.Stage → Option Nat
  | .work (.write _ bytes written) => some (bytes.length - written)
  | _ => none

/-- A device takes the calls to the file system of two steps in the same way. If both are to write,
it takes the rest of both or of neither, and as much of both if as much is left. -/
inductive Disk.Reply.SameFor (stage stage' : Store.Stage) : Disk.Reply → Disk.Reply → Prop where
  | refuse (fault : FileFault) : SameFor stage stage' (.refuse fault) (.refuse fault)
  | accept {limit limit' : Nat}
    (h : ∀ left ∈ stage.unwritten?, ∀ left' ∈ stage'.unwritten?,
      (limit + 1 < left ↔ limit' + 1 < left') ∧ (left = left' → limit = limit')) :
    SameFor stage stage' (.accept limit) (.accept limit')

namespace Store

/-- Two stores with the stages of a call, which differ in secrets only. -/
def Both (settings : Settings) (kin : Ciphertext → Ciphertext → Prop)
    (words : List UInt8 → Ciphertext.Fault → String) (p q : Store × Stage) : Prop :=
  Twins settings kin words p.1 q.1 ∧ p.2.Alike settings kin q.2

section

variable {settings : Settings} {kin : Ciphertext → Ciphertext → Prop}
  {words : List UInt8 → Ciphertext.Fault → String} {s t : Store} {name directory : String}
  {x y : Secret} {r r' : List UInt8} {n n' : Nat}
  {device device' : Disk.Reply} {fault : FileFault} {w w' : Work}

/-! ### Parts of a store -/

theorem Twins.report (h : Twins settings kin words s t) (failed : FailedStage)
    (name cause : String) :
    Twins settings kin words (s.report failed name cause) (t.report failed name cause) :=
  { h with log := by rw [Store.report, Store.report, h.log, h.left, h.right] }

theorem Twins.setDisk (h : Twins settings kin words s t) {d e : Disk}
    (hdisk : d.Alike (ReadAlike settings kin words) e) :
    Twins settings kin words { s with disk := d } { t with disk := e } :=
  { h with disk := hdisk }

theorem Twins.setCache (h : Twins settings kin words s t) {c d : SweptCache} (hcache : c.Alike d) :
    Twins settings kin words { s with cache := c } { t with cache := d } :=
  { h with cache := hcache }

theorem Twins.setLocks (h : Twins settings kin words s t) {l l' : NameLocks} (hlocks : l = l') :
    Twins settings kin words { s with locks := l } { t with locks := l' } :=
  { h with locks := hlocks }

theorem Twins.startSweeps (h : Twins settings kin words s t) :
    Twins settings kin words s.startSweeps t.startSweeps := by
  unfold Store.startSweeps
  rw [h.started, h.left, h.right]
  split
  · exact h
  · exact { h with
      left := rfl
      right := rfl
      started := rfl
      cache := (h.cache.startSweep .created _).startSweep .unused _ }

/-! ### Before the lock -/

theorem Twins.begin (h : Twins settings kin words s t) (name : String) {op op' : Operation}
    (hop : op.Alike op') : Both settings kin words (s.begin name op) (t.begin name op') := by
  unfold Store.begin
  cases KeyName.validate name with
  | error error => exact ⟨h, .finished (.error error)⟩
  | ok =>
    cases hop with
    | create hxy => exact ⟨h.startSweeps, .lookUpNew hxy⟩
    | get => exact ⟨h.startSweeps, .lookUp⟩
    | delete => exact ⟨h.startSweeps, .obtain .remove⟩

theorem Twins.lookUpNew (h : Twins settings kin words s t) (name : String) (hxy : x.Alike y) :
    Both settings kin words (s.lookUpNew name x) (t.lookUpNew name y) := by
  obtain ⟨hheld, hcache⟩ := h.cache.get name
  unfold Store.lookUpNew
  generalize s.cache.get name = p at *
  generalize t.cache.get name = q at *
  obtain ⟨held, c⟩ := p
  obtain ⟨held', d⟩ := q
  cases hheld with
  | none => exact ⟨h.setCache hcache, .record hxy⟩
  | some => exact ⟨h.setCache hcache, .finished (.error _)⟩

theorem Twins.lookUp (h : Twins settings kin words s t) (name : String) :
    Both settings kin words (s.lookUp name) (t.lookUp name) := by
  obtain ⟨hheld, hcache⟩ := h.cache.get name
  unfold Store.lookUp
  generalize s.cache.get name = p at *
  generalize t.cache.get name = q at *
  obtain ⟨held, c⟩ := p
  obtain ⟨held', d⟩ := q
  cases hheld with
  | none => exact ⟨h.setCache hcache, .obtain .read⟩
  | some hheld => exact ⟨h.setCache hcache, .finished (.ok (.secret hheld))⟩

theorem Twins.makeRecord (h : Twins settings kin words s t) (hxy : x.Alike y) :
    Both settings kin words (s.makeRecord x) (t.makeRecord y) := by
  unfold Store.makeRecord
  rw [h.left, h.right]
  cases hkey : settings.masterKey with
  | none => exact ⟨h, .obtain (storing_alike hxy (.plain hkey hxy))⟩
  | some key =>
    have henc := congrArg (· + 1) h.encryptions
    exact ⟨{ h with left := rfl, right := rfl, encryptions := henc }, .encrypt hkey hxy⟩

theorem Twins.takeCiphertext (h : Twins settings kin words s t) (name : String) {key : String}
    (hkey : settings.masterKey = some key) (hxy : x.Alike y)
    {answer answer' : Except KmsFault Ciphertext} (hanswer : SameResult kin answer answer') :
    Both settings kin words (s.takeCiphertext name x answer) (t.takeCiphertext name y answer') := by
  cases hanswer with
  | ok hcd =>
    unfold Store.takeCiphertext
    rw [h.left, h.right]
    exact ⟨h, .obtain (storing_alike hxy (.sealed hkey hcd))⟩
  | error fault => exact ⟨h.report .encrypt name fault.message, .finished (.error _)⟩

/-! ### Reading -/

theorem Twins.understand (h : Twins settings kin words s t) (name : String)
    (hread : BytesAlike settings kin words r r') :
    Both settings kin words (s.understand name r) (t.understand name r') := by
  unfold Store.understand
  unfold BytesAlike at hread
  rw [h.left, h.right]
  cases hkey : settings.masterKey with
  | none =>
    simp only [hkey] at hread ⊢
    generalize Secret.ofRecord r = result at *
    generalize Secret.ofRecord r' = result' at *
    cases hread with
    | ok hxy => exact ⟨h, .work (.cacheRead hxy)⟩
    | error fault => exact ⟨h.report .parse name _, .leave (.error _)⟩
  | some key =>
    simp only [hkey] at hread ⊢
    have hread := Ciphertext.sameResult_ofRecord hread
    generalize Ciphertext.ofRecord r = result at *
    generalize Ciphertext.ofRecord r' = result' at *
    cases hread with
    | ok hcd =>
      have hdec := congrArg (· + 1) h.decryptions
      exact ⟨{ h with left := rfl, right := rfl, decryptions := hdec }, .work (.decrypt hkey hcd)⟩
    | error error => exact ⟨h.report .parse name _, .leave (.error _)⟩

theorem Twins.takeSecret (h : Twins settings kin words s t) (name : String)
    {answer answer' : Except KmsFault Secret} (hanswer : SameResult Secret.Alike answer answer') :
    Both settings kin words (s.takeSecret name answer) (t.takeSecret name answer') := by
  cases hanswer with
  | ok hxy => exact ⟨h, .work (.cacheRead hxy)⟩
  | error fault => exact ⟨h.report .decrypt name fault.message, .leave (.error _)⟩

theorem Twins.failWith (h : Twins settings kin words s t) (failed : FailedStage) (name : String)
    (fault : FileFault) :
    Both settings kin words (s.failWith failed name fault) (t.failWith failed name fault) :=
  ⟨h.report failed name fault.message, .leave (.error _)⟩

theorem Twins.read (h : Twins settings kin words s t) (name : String)
    (hdevice : device.SameFor (.work .read) (.work .read) device') :
    Both settings kin words (s.read name device) (t.read name device') := by
  unfold Store.read
  rw [h.left, h.right]
  cases hbackend : settings.backend with
  | memory =>
    have hrecord := h.table name
    dsimp only
    generalize s.table.find? name = record at *
    generalize t.table.find? name = record' at *
    cases hrecord with
    | none => exact ⟨h, .leave (.error _)⟩
    | some hread =>
      rw [ReadAlike, hbackend] at hread
      exact h.understand name hread
  | files directory =>
    cases hdevice with
    | refuse fault => exact h.failWith .read name fault
    | accept =>
      have hcontent := h.disk.read (path directory name)
      dsimp only
      generalize s.disk.read (path directory name) = content at *
      generalize t.disk.read (path directory name) = content' at *
      cases hcontent with
      | ok hread =>
        rw [ReadAlike, hbackend] at hread
        exact h.understand name hread
      | error fault =>
        cases fault with
        | notFound => exact ⟨h, .leave (.error _)⟩
        | _ => exact h.failWith .read name _

/-! ### Storing -/

theorem Twins.failWrite (h : Twins settings kin words s t) (name : String) (fault : FileFault) :
    Both settings kin words (s.failWrite name fault) (t.failWrite name fault) :=
  ⟨h.report .create name fault.message, .work (.rollBack fault)⟩

theorem Twins.makeDirectory (h : Twins settings kin words s t) (directory name : String)
    (hxy : x.Alike y) (hrecord : RecordAlike settings kin r r') {stage stage' : Stage}
    (hdevice : device.SameFor stage stage' device') :
    Both settings kin words (s.makeDirectory directory name x r device)
      (t.makeDirectory directory name y r' device') := by
  unfold Store.makeDirectory
  cases hdevice with
  | refuse fault => exact h.failWith .create name fault
  | accept =>
    obtain ⟨hdisk, hresult⟩ := h.disk.makeDirectories directory 0o700
    dsimp only
    generalize s.disk.makeDirectories directory 0o700 = made at *
    generalize t.disk.makeDirectories directory 0o700 = made' at *
    obtain ⟨d, result⟩ := made
    obtain ⟨e, result'⟩ := made'
    obtain rfl : result = result' := hresult
    cases result with
    | error fault => exact (h.setDisk hdisk).failWith .create name fault
    | ok => exact ⟨h.setDisk hdisk, .work (.createFile hxy hrecord)⟩

theorem Twins.createFile (h : Twins settings kin words s t) (hrefl : ∀ c, kin c c)
    (directory name : String) (hxy : x.Alike y) (hrecord : RecordAlike settings kin r r')
    {stage stage' : Stage} (hdevice : device.SameFor stage stage' device') :
    Both settings kin words (s.createFile directory name x r device)
      (t.createFile directory name y r' device') := by
  unfold Store.createFile
  cases hdevice with
  | refuse fault => exact h.failWith .create name fault
  | accept =>
    have hmade := h.disk.createNew (readAlike_refl hrefl []) (path directory name) 0o600
    dsimp only
    generalize s.disk.createNew (path directory name) 0o600 = made at *
    generalize t.disk.createNew (path directory name) 0o600 = made' at *
    cases hmade with
    | ok hdisk => exact ⟨h.setDisk hdisk, .work (.write hxy hrecord fun _ => rfl)⟩
    | error fault =>
      cases fault with
      | alreadyExists => exact ⟨h, .leave (.error _)⟩
      | _ => exact h.failWith .create name _

/-- What a path of a key leads to is its record. -/
theorem contentAt?_of_locate (hfiles : s.settings.backend = .files directory)
    (hvalid : KeyName.Valid name) {target : Target}
    (hlocate : s.disk.locate (path directory name) = .ok target) :
    s.disk.contentAt? target.location = s.record? name := by
  obtain ⟨parent, rfl, hplace⟩ := Disk.eq_of_locate_join hvalid hlocate
  unfold record?
  rw [Target.location, hplace, hfiles]

/-- The bytes that are written are those of records that are alike, and follow what is there. -/
theorem Twins.write (h : Twins settings kin words s t)
    (hparts : ∀ {c d}, kin c d → PartsAlike kin words c d)
    (hfiles : settings.backend = .files directory) (hvalid : KeyName.Valid name)
    (hxy : x.Alike y) (hrecord : RecordAlike settings kin r r')
    (hwritten : r.length = r'.length → n = n')
    (hleft : (Work.write x r n).Drafted s name) (hright : (Work.write y r' n').Drafted t name)
    (hdevice : device.SameFor (.work (.write x r n)) (.work (.write y r' n')) device') :
    Both settings kin words (s.write directory name x r n device)
      (t.write directory name y r' n' device') := by
  unfold Store.write
  cases hdevice with
  | refuse fault => exact h.failWrite name fault
  | @accept limit limit' hlimit =>
    obtain ⟨hn, hheld⟩ := hleft
    obtain ⟨hn', hheld'⟩ := hright
    obtain ⟨hmore, hsame⟩ := hlimit _ rfl _ rfl
    have hwhole : n + (limit + 1) < r.length ↔ n' + (limit' + 1) < r'.length := by omega
    have hsame' (hlength : r.length = r'.length) : n + (limit + 1) = n' + (limit' + 1) := by
      obtain rfl := hwritten hlength
      rw [hsame (by rw [hlength])]
    have hfiles' : t.settings.backend = .files directory := by rw [h.right, hfiles]
    rw [← h.left] at hfiles
    have hdisk := h.disk.writeAt (path directory name) n n' ((r.drop n).take (limit + 1))
      ((r'.drop n').take (limit' + 1)) fun target content content' hlocate hcontent hcontent' => by
        -- each finds in its file what it has written
        rw [contentAt?_of_locate hfiles hvalid hlocate, hheld] at hcontent
        rw [h.disk.locate_eq] at hlocate
        rw [contentAt?_of_locate hfiles' hvalid hlocate, hheld'] at hcontent'
        obtain rfl := Option.some.inj hcontent
        obtain rfl := Option.some.inj hcontent'
        rw [Disk.overwrite_take r hn, Disk.overwrite_take r' hn']
        exact readAlike_take hparts hrecord hwhole hsame'
    dsimp only
    generalize s.disk.writeAt _ _ _ = result at *
    generalize t.disk.writeAt _ _ _ = result' at *
    cases hdisk with
    | error fault => exact h.failWrite name fault
    | ok hdisk =>
      by_cases hlt : n + (limit + 1) < r.length
      case pos =>
        simp only [if_pos hlt, if_pos (hwhole.1 hlt)]
        exact ⟨h.setDisk hdisk, .work (.write hxy hrecord hsame')⟩
      case neg =>
        simp only [if_neg hlt, if_neg (mt hwhole.2 hlt)]
        exact ⟨h.setDisk hdisk, .work (.flush hxy)⟩

theorem Twins.flush (h : Twins settings kin words s t) (name : String) (hxy : x.Alike y)
    {stage stage' : Stage} (hdevice : device.SameFor stage stage' device') :
    Both settings kin words (s.flush name x device) (t.flush name y device') := by
  cases hdevice with
  | refuse fault => exact h.failWrite name fault
  | accept => exact ⟨h, .work (.sync hxy)⟩

theorem Twins.sync (h : Twins settings kin words s t) (name : String) (hxy : x.Alike y)
    {stage stage' : Stage} (hdevice : device.SameFor stage stage' device') :
    Both settings kin words (s.sync name x device) (t.sync name y device') := by
  cases hdevice with
  | refuse fault => exact h.failWrite name fault
  | accept => exact ⟨h, .work (.cacheCreated hxy)⟩

theorem Twins.rollBack (h : Twins settings kin words s t) (directory name : String)
    (fault : FileFault) {stage stage' : Stage} (hdevice : device.SameFor stage stage' device') :
    Both settings kin words (s.rollBack directory name fault device)
      (t.rollBack directory name fault device') := by
  unfold Store.rollBack
  cases hdevice with
  | refuse second => exact ⟨h.report .rollback name second.message, .leave (.error _)⟩
  | accept =>
    have hremoved := h.disk.remove (path directory name)
    dsimp only
    generalize s.disk.remove (path directory name) = removed at *
    generalize t.disk.remove (path directory name) = removed' at *
    cases hremoved with
    | ok hdisk => exact ⟨h.setDisk hdisk, .leave (.error _)⟩
    | error second => exact ⟨h.report .rollback name second.message, .leave (.error _)⟩

theorem Twins.insert (h : Twins settings kin words s t)
    (hparts : ∀ {c d}, kin c d → PartsAlike kin words c d) (name : String) (hxy : x.Alike y)
    (hrecord : RecordAlike settings kin r r') :
    Both settings kin words (s.insert name x r) (t.insert name y r') := by
  have hheld := h.table name
  unfold Store.insert
  generalize hs : s.table.find? name = held at *
  generalize ht : t.table.find? name = held' at *
  cases hheld with
  | some => exact ⟨h, .leave (.error _)⟩
  | none =>
    refine ⟨{ h with table := fun other => ?_ }, .work (.cacheCreated hxy)⟩
    simp only [FiniteMap.find?_insert]
    split
    · exact .some (hrecord.readAlike hparts)
    · exact h.table other

/-! ### Removing -/

theorem Twins.failRemove (h : Twins settings kin words s t) (name : String) (fault : FileFault) :
    Both settings kin words (s.failRemove name fault) (t.failRemove name fault) :=
  ⟨h.report .delete name fault.message, .work (.purge (.error _))⟩

theorem Twins.remove (h : Twins settings kin words s t) (name : String)
    {stage stage' : Stage} (hdevice : device.SameFor stage stage' device') :
    Both settings kin words (s.remove name device) (t.remove name device') := by
  have hleft : s.settings.backend = settings.backend := congrArg Settings.backend h.left
  have hright : t.settings.backend = settings.backend := congrArg Settings.backend h.right
  unfold Store.remove
  rw [hleft, hright]
  cases settings.backend with
  | memory =>
    refine ⟨{ h with table := fun other => ?_ }, .work (.purge (.ok .done))⟩
    simp only [FiniteMap.find?_erase]
    split
    · exact .none
    · exact h.table other
  | files directory =>
    cases hdevice with
    | refuse fault => exact h.failRemove name fault
    | accept =>
      have hremoved := h.disk.remove (path directory name)
      dsimp only
      generalize s.disk.remove (path directory name) = removed at *
      generalize t.disk.remove (path directory name) = removed' at *
      cases hremoved with
      | ok hdisk => exact ⟨h.setDisk hdisk, .work (.purge (.ok .done))⟩
      | error fault =>
        cases fault with
        | notFound => exact ⟨h, .work (.purge (.ok .done))⟩
        | _ => exact h.failRemove name _

/-! ### Steps -/

/-- Work under the lock, if the calls find in their files what they have written and decrypting ends
alike. -/
theorem Twins.doWork (h : Twins settings kin words s t) (hrefl : ∀ c, kin c c)
    (hparts : ∀ {c d}, kin c d → PartsAlike kin words c d) (hvalid : KeyName.Valid name)
    (hw : w.Alike settings kin w') (hleft : w.Drafted s name) (hright : w'.Drafted t name)
    {reply reply' : Reply} (hdevice : reply.device.SameFor (.work w) (.work w') reply'.device)
    (hdecrypted : ∀ c d, w = .decrypt c → w' = .decrypt d → kin c d →
      SameResult Secret.Alike reply.decrypted reply'.decrypted) :
    Both settings kin words (s.doWork name reply w) (t.doWork name reply' w') := by
  have hbackend : s.settings.backend = settings.backend := congrArg Settings.backend h.left
  have hbackend' : t.settings.backend = settings.backend := congrArg Settings.backend h.right
  have hsame := hw
  unfold Store.doWork
  rw [hbackend, hbackend']
  cases hw with
  | flush hxy => exact h.flush name hxy hdevice
  | sync hxy => exact h.sync name hxy hdevice
  | insert hxy hrecord => exact h.insert hparts name hxy hrecord
  | cacheCreated hxy => exact ⟨h.setCache (h.cache.set name hxy), .leave (.ok .done)⟩
  | read => exact h.read name hdevice
  | decrypt _ hcd => exact h.takeSecret name (hdecrypted _ _ rfl rfl hcd)
  | cacheRead hxy =>
    obtain ⟨hheld, hcache⟩ := h.cache.add name hxy
    exact ⟨h.setCache hcache, .leave (.ok (.secret hheld))⟩
  | remove => exact h.remove name hdevice
  | purge houtcome => exact ⟨h.setCache (h.cache.erase name), .leave houtcome⟩
  -- only a store of files has work on files
  | makeDirectory hxy hrecord =>
    cases settings.backend with
    | files directory => exact h.makeDirectory directory name hxy hrecord hdevice
    | memory => exact ⟨h, .work hsame⟩
  | createFile hxy hrecord =>
    cases settings.backend with
    | files directory => exact h.createFile hrefl directory name hxy hrecord hdevice
    | memory => exact ⟨h, .work hsame⟩
  | write hxy hrecord hwritten =>
    cases hfiles : settings.backend with
    | files directory =>
      exact h.write hparts hfiles hvalid hxy hrecord hwritten hleft hright hdevice
    | memory => exact ⟨h, .work hsame⟩
  | rollBack fault =>
    cases settings.backend with
    | files directory => exact h.rollBack directory name fault hdevice
    | memory => exact ⟨h, .work hsame⟩

/-- **Calls that differ in secrets make the same step** as long as they are answered alike. -/
theorem Twins.perform (h : Twins settings kin words s t) (hrefl : ∀ c, kin c c)
    (hparts : ∀ {c d}, kin c d → PartsAlike kin words c d) (id : Nat) {call call' : Call}
    (hcall : call.Alike settings kin call')
    (hfits : call.stage.Fits s.settings call.name call.operation)
    (hleft : ∀ w, call.stage = .work w → w.Drafted s call.name)
    (hright : ∀ w, call'.stage = .work w → w.Drafted t call.name)
    {reply reply' : Reply} (hdevice : reply.device.SameFor call.stage call'.stage reply'.device)
    (hencrypted : ∀ x y, call.stage = .encrypt x → call'.stage = .encrypt y → x.Alike y →
      SameResult kin reply.encrypted reply'.encrypted)
    (hdecrypted : ∀ c d, call.stage = .work (.decrypt c) → call'.stage = .work (.decrypt d) →
      kin c d → SameResult Secret.Alike reply.decrypted reply'.decrypted) :
    Both settings kin words (s.perform id call reply) (t.perform id call' reply') := by
  obtain ⟨name, operation, stage⟩ := call
  obtain ⟨name', operation', stage'⟩ := call'
  obtain ⟨rfl, hoperation, hstage⟩ := hcall
  dsimp only at hoperation hstage hfits hleft hright hdevice hencrypted hdecrypted
  unfold Store.perform
  cases hstage with
  | start => exact h.begin name hoperation
  | lookUpNew hxy => exact h.lookUpNew name hxy
  | lookUp => exact h.lookUp name
  | record hxy => exact h.makeRecord hxy
  | encrypt hkey hxy => exact h.takeCiphertext name hkey hxy (hencrypted _ _ rfl rfl hxy)
  | obtain hw => exact ⟨h.setLocks (by rw [h.locks]), .request hw⟩
  | request hw => exact ⟨h.setLocks (by rw [h.locks, hw.mode_eq]), .wait hw⟩
  | wait hw =>
    dsimp only
    rw [h.locks]
    split
    · exact ⟨h, .work hw⟩
    · exact ⟨h, .wait hw⟩
  | work hw =>
    exact h.doWork hrefl hparts hfits.1 hw (hleft _ rfl) (hright _ rfl) hdevice
      fun c d hc hd => hdecrypted c d (congrArg Stage.work hc) (congrArg Stage.work hd)
  | leave houtcome => exact ⟨h.setLocks (by rw [h.locks]), .finished houtcome⟩
  | finished houtcome => exact ⟨h, .finished houtcome⟩

end

end Store

end Keyring
