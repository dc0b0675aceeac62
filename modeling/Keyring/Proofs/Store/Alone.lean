import Keyring.Proofs.Lock.Served
import Keyring.Proofs.Store.Accepting
import Keyring.Proofs.Store.Agreement

/-!
# A call that nobody disturbs

A call that is the only one, on a device and with a key management system that do not fail, comes to
its end after a bounded number of steps. How it ends is decided by what the backend and the cache
hold under its name.

- `Slot`, `Ends`: what is held under a name, and how a call ends that finds it;
- `Stage.Midway`: what such a call has done when it is at a stage;
- `Lone.step`: each step leads on, and nearer to the end;
- `runFor`, `Lone.ends`: the call comes to its end.
-/

namespace Keyring.Store

/-! ### How a call ends -/

/-- What is held under a name: a record by the backend, a secret by the cache. -/
@[ext]
structure Slot where
  /-- The record. -/
  record : Option (List UInt8)
  /-- The cached secret. -/
  cached : Option Secret

/-- What a store holds under a name. -/
def slot (s : Store) (name : String) : Slot := ⟨s.record? name, s.cached? name⟩

/-- What is held under a name after a change. -/
def Change.after (change : Change) (slot : Slot) : Slot :=
  ⟨change.recordAfter slot.record, change.cachedAfter slot.cached⟩

section

variable (settings : Settings) (opens : Ciphertext → Option Secret)

/-- How a call under a valid name ends, and what is held then. -/
inductive Ends (before : Slot) : Operation → Outcome → Slot → Prop where
  -- a name that is cached or stored is taken
  | taken {secret held : Secret} (h : before.cached = some held) :
    Ends before (.create secret) (.error .keyExists) before
  | stored {secret : Secret} {record : List UInt8} (hcached : before.cached = none)
    (h : before.record = some record) : Ends before (.create secret) (.error .keyExists) before
  | created {secret : Secret} {record : List UInt8} (hbefore : before = ⟨none, none⟩)
    (h : Seals settings opens secret record) :
    Ends before (.create secret) (.ok .done) ⟨some record, some secret⟩
  -- a secret is cached, or read off the record
  | hit {held : Secret} (h : before.cached = some held) :
    Ends before .get (.ok (.secret held)) before
  | nothing (hbefore : before = ⟨none, none⟩) : Ends before .get (.error .keyNotFound) before
  | read {record : List UInt8} {secret : Secret} (hbefore : before = ⟨some record, none⟩)
    (h : secretOf settings opens record = some secret) :
    Ends before .get (.ok (.secret secret)) ⟨some record, some secret⟩
  | unreadable {record : List UInt8} {error : Error} (hbefore : before = ⟨some record, none⟩)
    (h : secretOf settings opens record = none)
    (hsealed : settings.masterKey ≠ none → error = .keySealed)
    (hmalformed : settings.masterKey = none → ∃ reason, error = .malformedSecret reason) :
    Ends before .get (.error error) before
  -- whatever was held is gone
  | deleted : Ends before .delete (.ok .done) ⟨none, none⟩

/-- How a call ends, and what is held then: nothing is done under a name that is not valid. -/
def Finishes (name : String) (before : Slot) (operation : Operation) (outcome : Outcome)
    (now : Slot) : Prop :=
  match KeyName.validate name with
  | .error error => outcome = .error error ∧ now = before
  | .ok () => Ends settings opens before operation outcome now

/-! ### A call on its way -/

/-- What a call has done when it has some work to do, if something was held `before` it and is held
`now`. -/
def Work.Midway (before now : Slot) : Work → Prop
  | .makeDirectory _ _ | .createFile _ _ | .insert _ _ | .read =>
    now = before ∧ before.cached = none
  | .write _ record written =>
    before = ⟨none, none⟩ ∧ written < record.length ∧ now = ⟨some (record.take written), none⟩
  | .flush secret | .sync secret | .cacheCreated secret =>
    before = ⟨none, none⟩ ∧
      ∃ record, Seals settings opens secret record ∧ now = ⟨some record, none⟩
  | .decrypt c =>
    now = before ∧ settings.masterKey ≠ none ∧
      ∃ record, before = ⟨some record, none⟩ ∧ secretOf settings opens record = opens c
  | .cacheRead secret =>
    now = before ∧ ∃ record, before = ⟨some record, none⟩ ∧
      secretOf settings opens record = some secret
  | .remove => now = before
  | .purge outcome => outcome = .ok .done ∧ now = ⟨none, before.cached⟩
  | .rollBack _ => False

/-- What a call has done when it is at a stage. -/
def Stage.Midway (name : String) (operation : Operation) (before now : Slot) : Stage → Prop
  | .start | .lookUpNew _ | .lookUp => now = before
  | .record _ | .encrypt _ => now = before ∧ before.cached = none
  | .obtain w | .request w | .wait w | .work w => w.Midway settings opens before now
  | .leave outcome | .finished outcome =>
    Finishes settings opens name before operation outcome now

end

/-- A call at a stage finds the directory as it needs it. -/
def Stage.Hosted (s : Store) : Stage → Prop
  | .work (.createFile _ _) | .work (.write _ _ _) => s.Ready
  | _ => s.Hosted

/-- The largest number of steps of some work under the lock. -/
def Work.togo : Work → Nat
  | .makeDirectory _ record => record.length + 6
  | .createFile _ record => record.length + 5
  | .write _ record written => record.length - written + 4
  | .flush _ => 4
  | .sync _ | .insert _ _ | .decrypt _ | .remove => 3
  | .read => 4
  | .cacheCreated _ | .cacheRead _ | .purge _ | .rollBack _ => 2

/-- The largest number of steps of a call from a stage on. -/
def Stage.togo : Stage → Nat
  | .start => readLimit + 13
  | .lookUpNew _ => readLimit + 12
  | .record _ => readLimit + 11
  | .encrypt _ => readLimit + 10
  | .lookUp => 8
  | .obtain w => w.togo + 3
  | .request w => w.togo + 2
  | .wait w => w.togo + 1
  | .work w => w.togo
  | .leave _ => 1
  | .finished _ => 0

/-- A call that is the only one, with what it has done so far. -/
structure Lone (opens : Ciphertext → Option Secret) (before : Slot) (s : Store) (id : Nat)
    (call : Call) : Prop where
  sound : s.Sound
  served : s.locks.Served
  /-- No other call refers to a lock. -/
  alone : ∀ j, j ≠ id → s.user? j = none
  found : s.calls.find? id = some call
  carries : call.stage.Carries s.settings opens
  hosted : call.stage.Hosted s
  midway : call.stage.Midway s.settings opens call.name call.operation before (s.slot call.name)

variable {settings : Settings} {opens : Ciphertext → Option Secret} {s t : Store} {id : Nat}
  {name : String} {operation : Operation} {reply : Reply} {call : Call} {stage : Stage}
  {change : Change} {before : Slot} {secret : Secret} {record : List UInt8} {outcome : Outcome}

/-! ### What is held after a step -/

theorem Advances.slot_self (h : s.Advances t id call reply change stage) :
    t.slot call.name = change.after (s.slot call.name) := by
  simp only [slot, Change.after, h.record, h.cached, if_true]

theorem Advances.slot_of_ne (h : s.Advances t id call reply change stage) {n : String}
    (hn : n ≠ call.name) : t.slot n = s.slot n := by
  simp only [slot, h.record, h.cached, if_neg hn]

/-- A call advances to the stage that it performs. -/
theorem exists_advances_perform (hcall : s.calls.find? id = some call)
    (hfits : call.stage.Fits s.settings call.name call.operation) (reply : Reply) :
    (∃ change, s.Advances (s.step id reply) id call reply change (s.perform id call reply).2) ∧
      (s.step id reply).disk = (s.perform id call reply).1.disk := by
  obtain ⟨change, stage, hadv⟩ := exists_advances hcall hfits reply
  have hself := hadv.calls id
  simp only [step, hcall, FiniteMap.find?_insert, beq_self_eq_true, if_true,
    Option.some.injEq] at hself
  obtain rfl : (s.perform id call reply).2 = stage := congrArg Call.stage hself
  refine ⟨⟨change, hadv⟩, ?_⟩
  rw [step, hcall]

theorem Finishes.of_ends (hvalid : KeyName.Valid name) {now : Slot}
    (h : Ends settings opens before operation outcome now) :
    Finishes settings opens name before operation outcome now := by
  rw [Finishes, KeyName.validate_eq_ok_iff.2 hvalid]
  exact h

theorem Hosted.of_eq (h : s.Hosted) (hsettings : t.settings = s.settings)
    (hdisk : t.disk = s.disk) : t.Hosted := by
  intro directory hfiles
  rw [hsettings] at hfiles
  rw [hdisk]
  exact h directory hfiles

theorem Ready.of_eq (h : s.Ready) (hsettings : t.settings = s.settings)
    (hdisk : t.disk = s.disk) : t.Ready := by
  intro directory hfiles
  rw [hsettings] at hfiles
  rw [hdisk]
  exact h directory hfiles

/-- The directory that a call has put to use is ready. -/
theorem ready_of_serves {directory : String} {e : Disk}
    (hfiles : s.settings.backend = .files directory) (h : e.Serves directory)
    (hsettings : t.settings = s.settings) (hdisk : t.disk = e) : t.Ready := by
  intro other hother
  rw [hsettings, hfiles] at hother
  rw [← Backend.files.inj hother, hdisk]
  exact h

/-- Whether some work calls the file system for a change. -/
def Work.changesDisk : Work → Bool
  | .makeDirectory _ _ | .createFile _ _ | .write _ _ _ | .rollBack _ | .remove => true
  | _ => false

/-- Other steps leave the disk as it is. -/
theorem disk_perform (h : ∀ w, call.stage = .work w → w.changesDisk = false) :
    (s.perform id call reply).1.disk = s.disk := by
  have hunderstand (record : List UInt8) : (s.understand call.name record).1.disk = s.disk := by
    unfold understand
    split <;> split <;> rfl
  cases hstage : call.stage with
  | start =>
    simp only [perform, hstage, begin, startSweeps]
    split
    · rfl
    · split <;> rfl
  | lookUpNew secret =>
    simp only [perform, hstage, lookUpNew]
    split <;> rfl
  | lookUp =>
    simp only [perform, hstage, lookUp]
    split <;> rfl
  | record secret =>
    simp only [perform, hstage, makeRecord]
    split <;> rfl
  | encrypt secret =>
    simp only [perform, hstage, takeCiphertext]
    split <;> rfl
  | work w =>
    have hw := h w hstage
    simp only [perform, hstage]
    cases w with
    | makeDirectory | createFile | write | rollBack | remove => cases hw
    | flush secret =>
      simp only [doWork, flush]
      split <;> rfl
    | sync secret =>
      simp only [doWork, sync]
      split <;> rfl
    | insert secret record =>
      simp only [doWork, insert]
      split <;> rfl
    | read =>
      simp only [doWork]
      unfold read
      split
      · split
        · rfl
        · exact hunderstand _
      · rfl
      · split
        · exact hunderstand _
        · rfl
        · rfl
    | decrypt c =>
      simp only [doWork, takeSecret]
      split <;> rfl
    | cacheCreated | cacheRead | purge => rfl
  | obtain | request | wait | leave | finished => simp only [perform, hstage]

theorem disk_perform_work {w : Work} (hw : w.changesDisk = false) :
    (s.perform id ⟨name, operation, .work w⟩ reply).1.disk = s.disk :=
  disk_perform fun _ hv => Stage.work.inj hv ▸ hw

/-- A call that is about to store a record has found nothing cached. -/
theorem midway_storing {backend : Backend} {now : Slot}
    (h : now = before ∧ before.cached = none) :
    (backend.storing secret record).Midway settings opens before now := by
  cases backend <;> exact h

theorem togo_storing_le (backend : Backend) (secret : Secret) (record : List UInt8) :
    (backend.storing secret record).togo ≤ record.length + 6 := by
  cases backend with
  | files directory => exact Nat.le_refl _
  | memory => exact Nat.le_add_left 3 (record.length + 3)

/-! ### Each step leads on -/

/-- A step leads on, and nearer to the end, until it is reached. -/
structure Leads (opens : Ciphertext → Option Secret) (before : Slot) (t : Store) (call : Call)
    (stage : Stage) : Prop where
  midway : stage.Midway t.settings opens call.name call.operation before (t.slot call.name)
  hosted : stage.Hosted t
  nearer : stage.togo ≤ call.stage.togo - 1

section

variable (h : Lone opens before s id call) (hfaithful : reply.Faithful s.settings opens call.stage)
  (hadv : s.Advances t id call reply change stage) (hstage : stage = (s.perform id call reply).2)
  (hdisk : t.disk = (s.perform id call reply).1.disk)

include h hfaithful hadv hstage hdisk

/-- Before a call asks for its lock. -/
theorem Lone.leads_unlocked (hrefers : call.stage.refers = false)
    (hover : ∀ outcome, call.stage ≠ .finished outcome) : Leads opens before t call stage := by
  -- nothing is done to the disk without the lock
  have hhosted : t.Hosted := by
    have hs : s.Hosted := by
      have hs := h.hosted
      cases hat : call.stage <;> rw [hat] at hs hrefers <;> first | exact hs | cases hrefers
    refine hs.of_eq hadv.settings (hdisk.trans (disk_perform fun w hw => ?_))
    rw [hw] at hrefers
    cases hrefers
  have hslot := hadv.slot_self
  have hmidway := h.midway
  have hfits := h.sound.fits id call h.found
  have hnext := hadv.next
  cases hat : call.stage with
  | start =>
    rw [hat] at hnext hmidway
    cases hnext with
    | refused herror =>
      refine ⟨?_, hhosted, by simp [hat, Stage.togo]⟩
      rw [Stage.Midway, Finishes, herror]
      exact ⟨rfl, hslot.trans hmidway⟩
    | create hvalid hop => exact ⟨hslot.trans hmidway, hhosted, by simp [hat, Stage.togo]⟩
    | get hvalid hop => exact ⟨hslot.trans hmidway, hhosted, by simp [hat, Stage.togo]⟩
    | delete hvalid hop =>
      exact ⟨hslot.trans hmidway, hhosted, by simp [hat, Stage.togo, Work.togo]⟩
  | lookUpNew secret =>
    rw [hat] at hnext hmidway hfits
    obtain ⟨hvalid, hop⟩ := hfits
    obtain rfl : s.slot call.name = before := hmidway
    cases hnext with
    | taken hheld =>
      refine ⟨?_, hhosted, by simp [hat, Stage.togo]⟩
      rw [hslot, hop]
      exact .of_ends hvalid (.taken hheld)
    | free hnone => exact ⟨⟨hslot, hnone⟩, hhosted, by simp [hat, Stage.togo]⟩
  | lookUp =>
    rw [hat] at hnext hmidway hfits
    obtain ⟨hvalid, hop⟩ := hfits
    obtain rfl : s.slot call.name = before := hmidway
    cases hnext with
    | hit hheld =>
      refine ⟨?_, hhosted, by simp [hat, Stage.togo]⟩
      rw [hslot, hop]
      exact .of_ends hvalid (.hit hheld)
    | miss hnone => exact ⟨⟨hslot, hnone⟩, hhosted, by simp [hat, Stage.togo, Work.togo]⟩
  | record secret =>
    rw [hat] at hnext hmidway
    cases hnext with
    | plain hkey =>
      -- the record is short enough for the steps that are left to write it
      have hlength := length_plainRecord_le secret
      have htogo := togo_storing_le s.settings.backend secret (plainRecord secret)
      refine ⟨midway_storing ⟨hslot.trans hmidway.1, hmidway.2⟩, hhosted, ?_⟩
      rw [hat, Stage.togo, Stage.togo]
      omega
    | sealing hkey =>
      exact ⟨⟨hslot.trans hmidway.1, hmidway.2⟩, hhosted, by simp [hat, Stage.togo]⟩
  | encrypt secret =>
    rw [hat] at hnext hmidway
    have hcarries := h.carries
    rw [hat] at hcarries
    obtain ⟨c, hc, -, hreadable⟩ := hfaithful.encrypts hcarries secret hat
    cases hnext with
    | sealed hc' =>
      obtain rfl := Except.ok.inj (hc.symm.trans hc')
      have hlength : c.toRecord.length ≤ readLimit := Nat.le_succ_of_le hreadable.size_le
      have htogo := togo_storing_le s.settings.backend secret c.toRecord
      refine ⟨midway_storing ⟨hslot.trans hmidway.1, hmidway.2⟩, hhosted, ?_⟩
      rw [hat, Stage.togo, Stage.togo]
      omega
    | notSealed hfault => cases hc.symm.trans hfault
  | obtain w =>
    rw [hat] at hnext hmidway
    cases hnext
    refine ⟨?_, hhosted, by simp [hat, Stage.togo]⟩
    rw [hslot]
    rw [hadv.settings]
    exact hmidway
  | finished outcome => exact absurd hat (hover outcome)
  | request w | wait w | work w | leave outcome =>
    rw [hat] at hrefers
    cases hrefers

omit hfaithful in
/-- Taking the lock, which nobody else uses. -/
theorem Lone.leads_locking {w : Work} (hat : call.stage = .request w ∨ call.stage = .wait w) :
    Leads opens before t call stage := by
  have hslot := hadv.slot_self
  have hmidway := h.midway
  have hfits := h.sound.fits id call h.found
  have hlocked := h.sound.locked id call h.found
  have hnext := hadv.next
  have hhosted : t.Hosted := by
    have hs : s.Hosted := by
      have hs := h.hosted
      rcases hat with hat | hat <;> rw [hat] at hs <;> exact hs
    refine hs.of_eq hadv.settings (hdisk.trans (disk_perform fun w hw => ?_))
    rcases hat with hat | hat <;> rw [hat] at hw <;> cases hw
  rcases hat with hat | hat
  · rw [hat] at hnext hmidway
    cases hnext
    refine ⟨?_, hhosted, by simp [hat, Stage.togo]⟩
    rw [hslot, hadv.settings]
    exact hmidway
  · rw [hat] at hnext hmidway hlocked hfits
    cases hnext with
    | waiting hwaits =>
      -- who is alone with the lock does not wait for it
      rw [h.sound.agrees.isHeldBy_of_alone h.served hlocked h.alone] at hwaits
      cases hwaits
    | granted =>
      refine ⟨?_, ?_, by simp [hat, Stage.togo]⟩
      · rw [hslot, hadv.settings]
        exact hmidway
      · -- no work that a call begins with needs the directory to be there
        cases w with
        | createFile | write => exact hfits.2.2.elim
        | _ => exact hhosted

/-- Making the file of a key. -/
theorem Lone.leads_creatingFile (hat : call.stage = .work (.createFile secret record)) :
    Leads opens before t call stage := by
  obtain ⟨limit, hdevice⟩ := hfaithful.accepts
  have hslot := hadv.slot_self
  have hmidway := h.midway
  have hfits := h.sound.fits id call h.found
  have hcarries := h.carries
  have hhosted := h.hosted
  have hnext := hadv.next
  obtain ⟨name, operation, before'⟩ := call
  obtain rfl : before' = .work (.createFile secret record) := hat
  dsimp only at hslot hmidway hfits hcarries hhosted hnext hstage hdisk ⊢
  obtain ⟨hvalid, rfl, hbackend⟩ := hfits
  obtain ⟨directory, hfiles⟩ := exists_files hbackend
  obtain ⟨rfl, hcached⟩ := hmidway
  cases hrecord : s.record? name with
  | none =>
    obtain ⟨e, hserves, hperform⟩ := perform_createFile_of_none hfiles hdevice hvalid
      hhosted hrecord id (.create secret) secret record
    rw [hperform] at hstage hdisk
    subst hstage
    cases hnext
    have hpos := (hcarries secret record rfl).length_pos
    refine ⟨⟨Slot.ext hrecord hcached, hpos, ?_⟩,
      ready_of_serves hfiles hserves hadv.settings hdisk, by simp [Stage.togo, Work.togo]⟩
    rw [hslot]
    exact Slot.ext rfl hcached
  | some content =>
    have hperform := perform_createFile_of_some hfiles hdevice hvalid hhosted hrecord id
      (.create secret) secret record
    rw [hperform] at hstage hdisk
    subst hstage
    cases hnext
    refine ⟨?_, (hhosted.of_eq hadv.settings hdisk).hosted, by simp [Stage.togo, Work.togo]⟩
    rw [hslot]
    exact .of_ends hvalid (.stored hcached hrecord)

/-- Writing a part of a record, or the last of it. -/
theorem Lone.leads_writing {written : Nat}
    (hat : call.stage = .work (.write secret record written)) :
    Leads opens before t call stage := by
  obtain ⟨limit, hdevice⟩ := hfaithful.accepts
  have hslot := hadv.slot_self
  have hmidway := h.midway
  have hfits := h.sound.fits id call h.found
  have hcarries := h.carries
  have hhosted := h.hosted
  have hnext := hadv.next
  obtain ⟨name, operation, before'⟩ := call
  obtain rfl : before' = .work (.write secret record written) := hat
  dsimp only at hslot hmidway hfits hcarries hhosted hnext hstage hdisk ⊢
  obtain ⟨hvalid, rfl, hbackend⟩ := hfits
  obtain ⟨directory, hfiles⟩ := exists_files hbackend
  obtain ⟨hbefore, hlt, hnow⟩ := hmidway
  have hrecord : s.record? name = some (record.take written) := congrArg Slot.record hnow
  obtain ⟨e, hserves, hperform⟩ := perform_write hfiles hdevice hvalid hhosted hrecord id
    (.create secret) secret record written
  rw [hperform] at hstage hdisk
  have hready := ready_of_serves hfiles hserves hadv.settings hdisk
  cases hnext with
  | wroteSome hcontent hmore =>
    -- the file holds a longer part of the record
    obtain rfl := Option.some.inj (hcontent.symm.trans hrecord)
    refine ⟨⟨hbefore, hmore, ?_⟩, hready, ?_⟩
    · rw [hslot, hnow, Change.after, Change.recordAfter, Disk.overwrite_take record hlt.le]
      rfl
    · simp only [Stage.togo, Work.togo]
      omega
  | wroteAll hcontent hlast =>
    -- the last bytes complete the record
    obtain rfl := Option.some.inj (hcontent.symm.trans hrecord)
    refine ⟨⟨hbefore, record, ?_, ?_⟩, hready.hosted, ?_⟩
    · rw [hadv.settings]
      exact hcarries secret record rfl
    · rw [hslot, hnow, Change.after, Change.recordAfter, Disk.overwrite_take record hlt.le,
        List.take_of_length_le hlast]
      rfl
    · simp only [Stage.togo, Work.togo]
      omega
  | writeFailed =>
    simp only at hstage
    split at hstage <;> cases hstage

/-- Creating a key under the lock. -/
theorem Lone.leads_creating {w : Work} (hat : call.stage = .work w)
    (hop : ∃ secret, call.operation = .create secret) : Leads opens before t call stage := by
  obtain ⟨limit, hdevice⟩ := hfaithful.accepts
  have hslot := hadv.slot_self
  have hmidway := h.midway
  have hfits := h.sound.fits id call h.found
  have hcarries := h.carries
  have hhosted := h.hosted
  have hnext := hadv.next
  obtain ⟨name, operation, before'⟩ := call
  obtain rfl : before' = .work w := hat
  dsimp only at hslot hmidway hfits hcarries hhosted hnext hstage hdisk hop ⊢
  obtain ⟨hvalid, hfits⟩ := hfits
  cases w with
  | makeDirectory secret record =>
    obtain ⟨directory, hfiles⟩ := exists_files hfits.2
    obtain ⟨e, hserves, hperform⟩ := perform_makeDirectory hfiles hdevice hhosted id name
      operation secret record
    rw [hperform] at hstage hdisk
    subst hstage
    cases hnext
    exact ⟨⟨hslot.trans hmidway.1, hmidway.2⟩, ready_of_serves hfiles hserves hadv.settings hdisk,
      by simp [Stage.togo, Work.togo]⟩
  | createFile secret record => exact h.leads_creatingFile hfaithful hadv hstage hdisk rfl
  | write secret record written => exact h.leads_writing hfaithful hadv hstage hdisk rfl
  | flush secret =>
    have hready := hhosted.of_eq hadv.settings (hdisk.trans (disk_perform_work rfl))
    cases hnext with
    | flushed =>
      refine ⟨?_, hready, by simp [Stage.togo, Work.togo]⟩
      rw [hslot, hadv.settings]
      exact hmidway
    | flushFailed => simp [perform, doWork, flush, hdevice] at hstage
  | sync secret =>
    have hready := hhosted.of_eq hadv.settings (hdisk.trans (disk_perform_work rfl))
    cases hnext with
    | synced =>
      refine ⟨?_, hready, by simp [Stage.togo, Work.togo]⟩
      rw [hslot, hadv.settings]
      exact hmidway
    | syncFailed => simp [perform, doWork, sync, hdevice] at hstage
  | insert secret record =>
    obtain ⟨rfl, -⟩ := hfits
    obtain ⟨rfl, hcached⟩ := hmidway
    have hready := hhosted.of_eq hadv.settings (hdisk.trans (disk_perform_work rfl))
    cases hnext with
    | inserted hnone =>
      refine ⟨⟨Slot.ext hnone hcached, record, ?_, ?_⟩, hready, by simp [Stage.togo, Work.togo]⟩
      · rw [hadv.settings]
        exact hcarries secret record rfl
      · rw [hslot]
        exact Slot.ext rfl hcached
    | insertTaken hheld =>
      refine ⟨?_, hready, by simp [Stage.togo, Work.togo]⟩
      rw [hslot]
      exact .of_ends hvalid (.stored hcached hheld)
  | cacheCreated secret =>
    obtain rfl : operation = .create secret := hfits
    obtain ⟨hbefore, record, hseals, hnow⟩ := hmidway
    have hready := hhosted.of_eq hadv.settings (hdisk.trans (disk_perform_work rfl))
    cases hnext
    refine ⟨?_, hready, by simp [Stage.togo, Work.togo]⟩
    rw [hslot, hnow, hadv.settings]
    exact .of_ends hvalid (.created hbefore hseals)
  | rollBack fault => exact hmidway.elim
  | _ =>
    obtain ⟨secret, rfl⟩ := hop
    cases hfits

/-- Reading a key under the lock. -/
theorem Lone.leads_getting {w : Work} (hat : call.stage = .work w) (hop : call.operation = .get) :
    Leads opens before t call stage := by
  obtain ⟨limit, hdevice⟩ := hfaithful.accepts
  have hdecrypts := hfaithful.decrypts
  have hslot := hadv.slot_self
  have hmidway := h.midway
  have hfits := h.sound.fits id call h.found
  have hhosted := h.hosted
  have hnext := hadv.next
  obtain ⟨name, operation, before'⟩ := call
  obtain rfl : before' = .work w := hat
  obtain rfl : operation = .get := hop
  dsimp only at hslot hmidway hfits hhosted hnext hstage hdisk hdecrypts ⊢
  obtain ⟨hvalid, hfits⟩ := hfits
  cases w with
  | read =>
    obtain ⟨rfl, hcached⟩ := hmidway
    have hready : t.Hosted :=
      hhosted.of_eq hadv.settings (hdisk.trans (disk_perform_work rfl))
    cases hnext with
    | readNothing hnothing =>
      -- the path leads to the file, if there is one
      have hnone : s.record? name = none := by
        by_contra hsome
        obtain ⟨content, hcontent⟩ := Option.ne_none_iff_exists'.1 hsome
        exact hsome (hnothing (hhosted.reaches hvalid hcontent))
      refine ⟨?_, hready, by simp [Stage.togo, Work.togo]⟩
      rw [hslot]
      exact .of_ends hvalid (.nothing (Slot.ext hnone hcached))
    -- the device takes the call
    | readFailed => exact absurd hstage.symm (perform_read_ne_io hvalid hdevice hhosted _)
    | readSecret hrecord _ hkey hread =>
      refine ⟨⟨hslot, _, Slot.ext hrecord hcached, ?_⟩, hready, by simp [Stage.togo, Work.togo]⟩
      rw [hadv.settings, secretOf, hkey, hread]
      rfl
    | readMalformed hrecord hkey hread =>
      refine ⟨?_, hready, by simp [Stage.togo, Work.togo]⟩
      rw [hslot, hadv.settings]
      refine .of_ends hvalid (.unreadable (Slot.ext hrecord hcached) ?_ (fun h => absurd hkey h)
        fun _ => ⟨_, rfl⟩)
      rw [secretOf, hkey, hread]
      rfl
    | readCiphertext hrecord _ hkey hread =>
      refine ⟨⟨hslot, by simp [hadv.settings, hkey], _, Slot.ext hrecord hcached, ?_⟩, hready,
        by simp [Stage.togo, Work.togo]⟩
      rw [hadv.settings, secretOf, hkey, hread]
      rfl
    | readUnsealable hrecord hkey hread =>
      refine ⟨?_, hready, by simp [Stage.togo, Work.togo]⟩
      rw [hslot, hadv.settings]
      refine .of_ends hvalid (.unreadable (Slot.ext hrecord hcached) ?_ (fun _ => rfl)
        fun hnone => by cases hkey.symm.trans hnone)
      rw [secretOf, hkey, hread]
      rfl
  | decrypt c =>
    obtain ⟨rfl, hkey, record, hslot', hopens⟩ := hmidway
    have hready : t.Hosted :=
      hhosted.of_eq hadv.settings (hdisk.trans (disk_perform_work rfl))
    have hdecrypted := hdecrypts hkey c rfl
    cases hnext with
    | opened hsecret =>
      rw [hsecret] at hdecrypted
      refine ⟨⟨hslot, record, hslot', ?_⟩, hready, by simp [Stage.togo, Work.togo]⟩
      rw [hadv.settings, hopens, ← hdecrypted]
      rfl
    | notOpened hfault =>
      rw [hfault] at hdecrypted
      refine ⟨?_, hready, by simp [Stage.togo, Work.togo]⟩
      rw [hslot, hadv.settings]
      exact .of_ends hvalid (.unreadable hslot' (hopens.trans hdecrypted.symm) (fun _ => rfl)
        fun hnone => absurd hnone hkey)
  | cacheRead secret =>
    obtain ⟨rfl, record, hslot', hopens⟩ := hmidway
    have hready : t.Hosted :=
      hhosted.of_eq hadv.settings (hdisk.trans (disk_perform_work rfl))
    have hcached : s.cached? name = none := congrArg Slot.cached hslot'
    cases hnext
    refine ⟨?_, hready, by simp [Stage.togo, Work.togo]⟩
    rw [hslot, hadv.settings, hcached, hslot']
    exact .of_ends hvalid (.read rfl hopens)
  | makeDirectory | createFile | write | flush | sync | insert => cases hfits.1
  | rollBack fault => exact hmidway.elim
  | cacheCreated | remove | purge => cases hfits

/-- Deleting a key under the lock. -/
theorem Lone.leads_deleting {w : Work} (hat : call.stage = .work w)
    (hop : call.operation = .delete) : Leads opens before t call stage := by
  obtain ⟨limit, hdevice⟩ := hfaithful.accepts
  have hslot := hadv.slot_self
  have hmidway := h.midway
  have hfits := h.sound.fits id call h.found
  have hhosted := h.hosted
  have hnext := hadv.next
  obtain ⟨name, operation, before'⟩ := call
  obtain rfl : before' = .work w := hat
  obtain rfl : operation = .delete := hop
  dsimp only at hslot hmidway hfits hhosted hnext hstage hdisk ⊢
  obtain ⟨hvalid, hfits⟩ := hfits
  cases w with
  | remove =>
    obtain ⟨u, hsettings, hready, hperform⟩ := perform_remove hvalid hdevice hhosted id
      .delete
    rw [hperform] at hstage hdisk
    have hhosted' := hready.of_eq (hadv.settings.trans hsettings.symm) hdisk
    obtain rfl : s.slot name = before := hmidway
    cases hnext with
    | removed => exact ⟨⟨rfl, hslot⟩, hhosted', by simp [Stage.togo, Work.togo]⟩
    | removedNothing hmissing =>
      have hnone := record?_of_missing hvalid hdevice hhosted hmissing
      exact ⟨⟨rfl, hslot.trans (Slot.ext hnone rfl)⟩, hhosted', by simp [Stage.togo, Work.togo]⟩
    | notRemoved => cases hstage
  | purge outcome =>
    obtain ⟨rfl, hnow⟩ := hmidway
    have hready : t.Hosted :=
      hhosted.of_eq hadv.settings (hdisk.trans (disk_perform_work rfl))
    cases hnext
    refine ⟨?_, hready, by simp [Stage.togo, Work.togo]⟩
    rw [hslot, hnow]
    exact .of_ends hvalid .deleted
  | makeDirectory | createFile | write | flush | sync | insert => cases hfits.1
  | rollBack fault => exact hmidway.elim
  | cacheCreated | read | decrypt | cacheRead => cases hfits

omit hfaithful in
/-- Giving the lock back, and being over. -/
theorem Lone.leads_leaving
    (hat : ∃ outcome, call.stage = .leave outcome ∨ call.stage = .finished outcome) :
    Leads opens before t call stage := by
  have hmidway := h.midway
  have hslot := hadv.slot_self
  have hnext := hadv.next
  have hhosted := h.hosted
  obtain ⟨outcome, hat | hat⟩ := hat
  all_goals
    have hsame := hdisk.trans (disk_perform (by simp [hat]))
    rw [hat] at hnext hmidway hhosted
    cases hnext
    refine ⟨?_, hhosted.of_eq hadv.settings hsame, Nat.zero_le _⟩
    rw [hslot, hadv.settings]
    exact hmidway

/-- Every step leads on. -/
theorem Lone.leads : Leads opens before t call stage := by
  cases hat : call.stage with
  | start | lookUpNew | lookUp | record | encrypt | obtain =>
    exact h.leads_unlocked hfaithful hadv hstage hdisk (by rw [hat]; rfl) (by simp [hat])
  | request w => exact h.leads_locking hadv hstage hdisk (.inl hat)
  | wait w => exact h.leads_locking hadv hstage hdisk (.inr hat)
  | work w =>
    cases hop : call.operation with
    | create secret => exact h.leads_creating hfaithful hadv hstage hdisk hat ⟨secret, hop⟩
    | get => exact h.leads_getting hfaithful hadv hstage hdisk hat hop
    | delete => exact h.leads_deleting hfaithful hadv hstage hdisk hat hop
  | leave outcome => exact h.leads_leaving hadv hstage hdisk ⟨outcome, .inl hat⟩
  | finished outcome => exact h.leads_leaving hadv hstage hdisk ⟨outcome, .inr hat⟩

end

/-! ### To the end -/

/-- The locks are served after a step. -/
theorem Advances.served (h : s.Advances t id call reply change stage) (hserved : s.locks.Served) :
    t.locks.Served := by
  rw [h.locks]
  cases call.stage with
  | obtain w => exact hserved.obtain id call.name
  | request w => exact hserved.request id w.mode
  | leave outcome => exact hserved.leave id
  | _ => exact hserved

/-- What a call does not touch: other calls, and what is held under other names. -/
structure Apart (s t : Store) (id : Nat) (name : String) : Prop where
  settings : t.settings = s.settings
  slot : ∀ n, n ≠ name → t.slot n = s.slot n
  calls : ∀ j, j ≠ id → t.calls.find? j = s.calls.find? j

theorem Apart.refl (s : Store) (id : Nat) (name : String) : s.Apart s id name :=
  ⟨rfl, fun _ _ => rfl, fun _ _ => rfl⟩

theorem Apart.trans {u : Store} (h : s.Apart t id name) (h' : t.Apart u id name) :
    s.Apart u id name :=
  ⟨h'.settings.trans h.settings, fun n hn => (h'.slot n hn).trans (h.slot n hn),
    fun j hj => (h'.calls j hj).trans (h.calls j hj)⟩

theorem Advances.apart (h : s.Advances t id call reply change stage) :
    s.Apart t id call.name :=
  ⟨h.settings, fun _ hn => h.slot_of_ne hn, fun j hj => by rw [h.calls, if_neg hj]⟩

/-- An answer that does not fail is honest. -/
theorem Lone.honest (h : Lone opens before s id call)
    (hfaithful : reply.Faithful s.settings opens call.stage) : reply.Honest opens call.stage := by
  have hcarries := h.carries
  have hmidway := h.midway
  cases hat : call.stage with
  | encrypt secret =>
    rw [hat] at hcarries
    obtain ⟨c, hc, hopens⟩ := hfaithful.encrypts hcarries secret hat
    intro c' hc'
    obtain rfl := Except.ok.inj (hc.symm.trans hc')
    exact hopens
  | work w =>
    cases w with
    | decrypt c =>
      rw [hat] at hmidway
      intro secret hsecret
      rw [← hfaithful.decrypts hmidway.2.1 c hat, hsecret]
      rfl
    | _ => trivial
  | _ => trivial

/-- Each step of a call that nobody disturbs leads on, until it is over. -/
theorem Lone.step (h : Lone opens before s id call)
    (hfaithful : reply.Faithful s.settings opens call.stage) :
    ∃ stage, Lone opens before (s.step id reply) id { call with stage } ∧
      s.Apart (s.step id reply) id call.name ∧ stage.togo ≤ call.stage.togo - 1 := by
  obtain ⟨⟨change, hadv⟩, hdisk⟩ :=
    exists_advances_perform h.found (h.sound.fits id call h.found) reply
  generalize hstage : (s.perform id call reply).2 = stage at hadv
  refine ⟨stage, ?_⟩
  have hleads := h.leads hfaithful hadv hstage.symm hdisk
  refine ⟨⟨h.sound.advances h.found hadv, hadv.served h.served, fun j hj => ?_,
    by rw [hadv.calls, if_pos rfl], ?_, hleads.hosted, hleads.midway⟩, hadv.apart, hleads.nearer⟩
  · rw [hadv.user?_eq, Function.update_of_ne hj, h.alone j hj]
  · rw [hadv.settings]
    exact hadv.next.carries (h.honest hfaithful) h.carries

/-- Make so many steps of a call; `answers` says what is answered to a call at a stage, by the
number of steps that are left. -/
def runFor (answers : Nat → Stage → Reply) (id : Nat) : Nat → Store → Store
  | 0, s => s
  | steps + 1, s =>
    match s.stage? id with
    | none => s
    | some stage => runFor answers id steps (s.step id (answers steps stage))

/-- The number of steps in which every call comes to its end that nobody disturbs. -/
def longestRun : Nat := readLimit + 13

/-- Enough steps lead to the end of a call. -/
theorem Lone.ends {answers : Nat → Stage → Reply} {steps : Nat} (h : Lone opens before s id call)
    (hfaithful : ∀ k stage, stage.Fits s.settings call.name call.operation →
      (answers k stage).Faithful s.settings opens stage)
    (hsteps : call.stage.togo ≤ steps) :
    ∃ outcome, Lone opens before (runFor answers id steps s) id
        { call with stage := .finished outcome } ∧
      s.Apart (runFor answers id steps s) id call.name := by
  induction steps generalizing s call with
  | zero =>
    -- no step is to go from the end only
    obtain ⟨outcome, hover⟩ : ∃ outcome, call.stage = .finished outcome := by
      cases hat : call.stage with
      | finished outcome => exact ⟨outcome, rfl⟩
      | obtain w | request w | wait w | work w =>
        rw [hat] at hsteps
        cases w <;> simp [Stage.togo, Work.togo] at hsteps
      | _ =>
        rw [hat] at hsteps
        simp [Stage.togo] at hsteps
    refine ⟨outcome, ?_, .refl s id call.name⟩
    rw [← hover]
    exact h
  | succ steps ih =>
    have hfound : s.stage? id = some call.stage := by rw [stage?, h.found]; rfl
    have hfits := h.sound.fits id call h.found
    obtain ⟨stage, hlone, hapart, htogo⟩ := h.step (hfaithful steps call.stage hfits)
    rw [← hapart.settings] at hfaithful
    obtain ⟨outcome, hlone', hapart'⟩ := ih hlone hfaithful (show stage.togo ≤ steps by omega)
    refine ⟨outcome, ?_, ?_⟩
    · rw [runFor, hfound]
      exact hlone'
    · rw [runFor, hfound]
      exact hapart.trans hapart'

/-- A store whose calls are over and whose directory can be used. -/
structure Idle (s : Store) : Prop where
  sound : s.Sound
  served : s.locks.Served
  hosted : s.Hosted
  finished : ∀ id call, s.calls.find? id = some call → ∃ outcome, call.stage = .finished outcome

theorem idle_new {settings : Settings} {disk : Disk}
    (h : ∀ directory, settings.backend = .files directory → disk.Hosts directory) (now : Nat) :
    (new settings disk now).Idle where
  sound := sound_new settings disk now
  served := NameLocks.served_empty
  hosted := h
  finished id call hcall := by simp [new] at hcall

/-- A new call of an idle store is the only one. -/
theorem Idle.lone (h : s.Idle) (hfresh : s.calls.find? id = none)
    (opens : Ciphertext → Option Secret)
    (name : String) (operation : Operation) :
    Lone opens (s.slot name) (s.call id name operation) id ⟨name, operation, .start⟩ where
  sound := h.sound.newCall hfresh name operation
  served := h.served
  alone j hj := by
    have hj' : (s.call id name operation).calls.find? j = s.calls.find? j := by
      simp [Store.call, hj]
    cases hother : s.calls.find? j with
    | none => rw [user?, hj', hother]; rfl
    | some other =>
      obtain ⟨outcome, hover⟩ := h.finished j other hother
      rw [Store.user?_eq (hj'.trans hother), hover]
      rfl
  found := by simp [Store.call]
  carries := trivial
  hosted := h.hosted
  midway := rfl

/-- To make a call touches nothing else. -/
theorem apart_call (s : Store) (id : Nat) (name : String) (operation : Operation) :
    s.Apart (s.call id name operation) id name :=
  ⟨rfl, fun _ _ => rfl, fun j hj => by simp [Store.call, hj]⟩

/-- At the end of its only call a store is idle again. -/
theorem Lone.idle (h : Lone opens before t id { call with stage := .finished outcome })
    (hidle : s.Idle) (hapart : s.Apart t id name) : t.Idle where
  sound := h.sound
  served := h.served
  hosted := h.hosted
  finished j other hother := by
    -- the call itself is over, and the others were before
    by_cases hj : j = id
    · subst hj
      obtain rfl := Option.some.inj (h.found.symm.trans hother)
      exact ⟨outcome, rfl⟩
    · rw [hapart.calls j hj] at hother
      exact hidle.finished j other hother

/-- **A call alone.** A call of an idle store comes to its end, touches nothing but what is held
under its name, and leaves the store idle. -/
theorem Idle.complete {answers : Nat → Stage → Reply} (h : s.Idle)
    (hfresh : s.calls.find? id = none) (name : String) (operation : Operation)
    (hfaithful : ∀ k stage, stage.Fits s.settings name operation →
      (answers k stage).Faithful s.settings opens stage) :
    ∃ outcome, ∃ t, runFor answers id longestRun (s.call id name operation) = t ∧
      t.outcome? id = some outcome ∧ t.Idle ∧ s.Apart t id name ∧
      Finishes s.settings opens name (s.slot name) operation outcome (t.slot name) := by
  have hlone := h.lone hfresh opens name operation
  have hsteps : Stage.start.togo ≤ longestRun := Nat.le_refl _
  obtain ⟨outcome, hend, hapart⟩ := hlone.ends hfaithful hsteps
  generalize runFor answers id longestRun (s.call id name operation) = t at hend hapart
  have hcall := (apart_call s id name operation).trans hapart
  refine ⟨outcome, t, rfl, outcome?_eq_some_iff.2 ⟨_, hend.found, rfl⟩, hend.idle h hcall, hcall,
    ?_⟩
  rw [← hcall.settings]
  exact hend.midway

end Keyring.Store
