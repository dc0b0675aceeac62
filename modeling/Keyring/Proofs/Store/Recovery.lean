import Keyring.Proofs.Store.Creation
import Keyring.Proofs.Store.Interruption

/-!
# What is left of a key

After an interruption the disk is all that is left of a key store of files. A store that is set up
anew finds the key of a call that had returned, and makes a key that it does not find. A file that
was being written is left as it was: it holds a part of a record, which is taken for a sealed or a
malformed key, or for another secret.

- `LeavesNoDraft`: an incident that leaves no file that is not complete or was to go again;
- `Work.Stored`, `Kept`, `Filed`: what the file of a key holds, by the calls that work on it;
- `Intact`: without drafts, a file holds the record of a secret that was to be created;
- `Recovers`, `exists_recovers`: what a store that is set up anew gives for a key.
-/

namespace Keyring.Store

/-- An incident in which the key management system is honest. -/
def Incident.Honest (opens : Ciphertext → Option Secret) (s : Store) : Incident → Prop
  | .move m => Store.Honest opens s m
  | .drop _ | .restart => True

/-- An incident that leaves no file of a key that is not complete or was to go again: the file of a
call that failed is removed, and no call that has a draft is given up. -/
def LeavesNoDraft (name : String) (s : Store) : Incident → Prop
  | .move m => RollsBack name s m
  | .drop id => ∀ call ∈ s.calls.find? id, call.name = name →
    call.stage.work?.any Work.isDraft = false
  | .restart => ¬s.SomeWorks name Work.isDraft

/-- An incident in which the record of a key is not removed by a call that deletes the key. -/
def KeepsRecord (name : String) (s : Store) : Incident → Prop
  | .move (.step id _) => ∀ call ∈ s.calls.find? id, call.name = name →
    call.stage ≠ .work .remove
  | _ => True

/-- An incident in which a call returns that has created a secret. -/
def Completes (name : String) (secret : Secret) (s : Store) (i : Incident) : Prop :=
  ∃ id, s.outcome? id = none ∧
    (s.befall i).calls.find? id = some ⟨name, .create secret, .finished (.ok .done)⟩

instance decidableHonestIncident (opens : Ciphertext → Option Secret) (s : Store) :
    (i : Incident) → Decidable (i.Honest opens s)
  | .move m => inferInstanceAs (Decidable (Store.Honest opens s m))
  | .drop _ | .restart => isTrue trivial

instance decidableLeavesNoDraft (name : String) (s : Store) :
    (i : Incident) → Decidable (LeavesNoDraft name s i)
  | .move m => inferInstanceAs (Decidable (RollsBack name s m))
  | .drop id => inferInstanceAs (Decidable (∀ call ∈ s.calls.find? id, call.name = name →
      call.stage.work?.any Work.isDraft = false))
  | .restart => inferInstanceAs (Decidable (¬s.SomeWorks name Work.isDraft))

instance decidableKeepsRecord (name : String) (s : Store) :
    (i : Incident) → Decidable (KeepsRecord name s i)
  | .move (.step id _) => inferInstanceAs (Decidable (∀ call ∈ s.calls.find? id,
      call.name = name → call.stage ≠ .work .remove))
  | .move (.call _ _ _) | .move (.wait _) | .move (.beginSweep _) | .move (.finishSweep _)
  | .move (.evict _) | .drop _ | .restart => isTrue trivial

/-- The record of a secret is stored. -/
def Holds (opens : Ciphertext → Option Secret) (s : Store) (name : String) (secret : Secret) :
    Prop :=
  ∃ record, s.record? name = some record ∧ Seals s.settings opens secret record

/-- What the file of a key holds, by the work of a call that stores it. -/
def Work.Stored (opens : Ciphertext → Option Secret) (s : Store) (name : String) : Work → Prop
  | .write _ record written =>
    written < record.length ∧ s.record? name = some (record.take written)
  | .flush secret | .sync secret | .cacheCreated secret => s.Holds opens name secret
  | .rollBack _ => s.record? name ≠ none
  | _ => True

/-- The record of a secret is stored, and nobody is still storing it. -/
structure Kept (opens : Ciphertext → Option Secret) (s : Store) (name : String) (secret : Secret) :
    Prop where
  holds : s.Holds opens name secret
  idle : ∀ id w, s.WorksOn name id w → w.isStoring = false

/-- The file of a key is as the calls that store it have left it. -/
structure Filed (opens : Ciphertext → Option Secret) (s : Store) (name : String) : Prop where
  stored : ∀ id w, s.WorksOn name id w → w.Stored opens s name
  /-- At most one call stores the file. -/
  storing : ∀ id j w w', s.WorksOn name id w → s.WorksOn name j w' → w.isStoring = true →
    w'.isStoring = true → id = j
  /-- What a call has created is kept when it is about to return. -/
  done : ∀ id secret, s.calls.find? id = some ⟨name, .create secret, .leave (.ok .done)⟩ →
    s.Kept opens name secret

/-- A file that no call has in the making holds the record of a secret that was to be created. -/
structure Intact (opens : Ciphertext → Option Secret) (asked : Secret → Prop) (s : Store)
    (name : String) : Prop where
  calls : ∀ id call, s.calls.find? id = some call → call.name = name →
    ∀ secret, call.operation = .create secret → asked secret
  record : ∀ record, s.record? name = some record →
    (∃ secret, asked secret ∧ Seals s.settings opens secret record) ∨
      ∃ id w, s.WorksOn name id w ∧ w.isDraft = true

section

variable {opens : Ciphertext → Option Secret} {s t : Store} {id j : Nat} {name : String}
  {reply : Reply} {call : Call} {stage : Stage} {change : Change} {secret : Secret} {w : Work}
  {asked : Secret → Prop} {settings : Settings}

/-! ### Nothing happens under a name -/

/-- Nothing changes of the record of a key, and nobody comes to work on it. -/
structure Undisturbed (s t : Store) (name : String) : Prop where
  settings : t.settings = s.settings
  record : t.record? name = s.record? name
  works : ∀ id call, t.calls.find? id = some call → call.name = name → call.stage.AtWork →
    s.calls.find? id = some call

theorem Undisturbed.worksOn (h : s.Undisturbed t name) (hid : t.WorksOn name id w) :
    s.WorksOn name id w := by
  obtain ⟨call, hcall, hname, hstage⟩ := hid
  exact ⟨call, h.works id call hcall hname (by rw [hstage]; trivial), hname, hstage⟩

theorem undisturbed_call (s : Store) (id : Nat) (n : String) (operation : Operation)
    (name : String) : s.Undisturbed (s.call id n operation) name where
  settings := rfl
  record := rfl
  works j other hother _ hatWork := by
    rw [Store.call, FiniteMap.find?_insert] at hother
    split at hother
    · -- a new call is not at work
      obtain rfl := Option.some.inj hother
      exact hatWork.elim
    · exact hother

theorem Advances.undisturbed (hadv : s.Advances t id call reply change stage)
    (hne : call.name ≠ name) : s.Undisturbed t name where
  settings := hadv.settings
  record := by rw [hadv.record, if_neg hne.symm]
  works j other hother hname _ := by
    rw [hadv.calls] at hother
    split at hother
    · obtain rfl := Option.some.inj hother
      exact absurd hname hne
    · exact hother

theorem Fades.undisturbed (h : s.Fades t) (name : String) : s.Undisturbed t name where
  settings := h.settings
  record := h.record? name
  works j other hother _ _ := by rwa [h.calls] at hother

theorem undisturbed_abandon (s : Store) (id : Nat) (name : String) :
    s.Undisturbed (s.abandon id) name where
  settings := rfl
  record := rfl
  works _ _ hother _ _ := (find?_of_abandon hother).2

theorem undisturbed_reopen (hfiles : s.settings.backend ≠ .memory) (name : String) :
    s.Undisturbed s.reopen name where
  settings := rfl
  record := record?_reopen hfiles name
  works _ _ hother _ _ := by cases hother

theorem Holds.undisturbed (h : s.Holds opens name secret) (hsame : s.Undisturbed t name) :
    t.Holds opens name secret := by
  obtain ⟨record, hrecord, hseals⟩ := h
  exact ⟨record, hsame.record.trans hrecord, by rwa [hsame.settings]⟩

theorem Kept.undisturbed (h : s.Kept opens name secret) (hsame : s.Undisturbed t name) :
    t.Kept opens name secret :=
  ⟨h.holds.undisturbed hsame, fun id w hid => h.idle id w (hsame.worksOn hid)⟩

theorem Work.Stored.undisturbed (h : w.Stored opens s name) (hsettings : t.settings = s.settings)
    (hrecord : t.record? name = s.record? name) : w.Stored opens t name := by
  cases w with
  | write x record written => exact ⟨h.1, hrecord.trans h.2⟩
  | flush x | sync x | cacheCreated x =>
    obtain ⟨record, hsome, hseals⟩ := h
    exact ⟨record, hrecord.trans hsome, by rwa [hsettings]⟩
  | rollBack fault =>
    intro hnone
    exact h (hrecord.symm.trans hnone)
  | makeDirectory | createFile | insert | read | decrypt | cacheRead | remove | purge => trivial

theorem Filed.undisturbed (h : s.Filed opens name) (hsame : s.Undisturbed t name) :
    t.Filed opens name where
  stored id w hid := (h.stored id w (hsame.worksOn hid)).undisturbed hsame.settings hsame.record
  storing id j w w' hid hj := h.storing id j w w' (hsame.worksOn hid) (hsame.worksOn hj)
  done id secret hcall := (h.done id secret (hsame.works id _ hcall rfl trivial)).undisturbed hsame

/-! ### A call works on the name -/

/-- Work that stores nothing expects nothing of the file. -/
theorem stored_of_idle (h : w.isStoring = false) : w.Stored opens s name := by
  cases w <;> trivial

/-- While a file is being stored, there is one. -/
theorem Work.Stored.record_ne_none (h : w.Stored opens s name) (hstoring : w.isStoring = true) :
    s.record? name ≠ none := by
  cases w with
  | write x record written =>
    rw [h.2]
    simp
  | flush x | sync x | cacheCreated x =>
    obtain ⟨record, hrecord, -⟩ := h
    rw [hrecord]
    simp
  | rollBack fault => exact h
  | makeDirectory | createFile | insert | read | decrypt | cacheRead | remove | purge =>
    cases hstoring

/-- Whoever works on a name after a step made it or worked on it before. -/
theorem Advances.worksOn_cases (hadv : s.Advances t id call reply change stage)
    (hj : t.WorksOn call.name j w) :
    j = id ∧ stage = .work w ∨ j ≠ id ∧ s.WorksOn call.name j w := by
  rw [hadv.worksOn_iff] at hj
  split at hj
  case isTrue heq => exact .inl ⟨heq, hj.2⟩
  case isFalse hne => exact .inr ⟨hne, hj⟩

/-- What is kept is kept by every step that does not remove it. -/
theorem Kept.advances (h : s.Kept opens call.name secret) (hsound : s.Sound)
    (hcall : s.calls.find? id = some call) (hremove : call.stage ≠ .work .remove)
    (hadv : s.Advances t id call reply change stage) : t.Kept opens call.name secret := by
  obtain ⟨⟨record, hrecord, hseals⟩, hidle⟩ := h
  have hfits := hsound.fits id call hcall
  have hself {w : Work} (hstage : call.stage = .work w) : w.isStoring = false :=
    hidle id w ⟨call, hcall, rfl, hstage⟩
  -- a step that leaves the record and stores nothing keeps it, and so only steps that change the
  -- record or come from storing it are left
  have hkeep (hsame : change.recordAfter (s.record? call.name) = s.record? call.name)
      (hstoring : ∀ w, stage = .work w → w.isStoring = false) : t.Kept opens call.name secret := by
    refine ⟨⟨record, ?_, by rwa [hadv.settings]⟩, fun j w hj => ?_⟩
    · rw [hadv.record, if_pos rfl, hsame, hrecord]
    · rcases hadv.worksOn_cases hj with ⟨-, hstage⟩ | ⟨-, hj⟩
      · exact hstoring w hstage
      · exact hidle j w hj
  obtain ⟨name, operation, before⟩ := call
  dsimp only at hrecord hremove hfits hself hkeep hadv ⊢
  have hnext := hadv.next
  cases hnext with
  | fileMade hnone | inserted hnone => cases hnone.symm.trans hrecord
  | removed => exact absurd rfl hremove
  | wroteSome | wroteAll | writeFailed | flushed | flushFailed | synced | syncFailed | rolledBack
  | notRolledBack | cachedCreated => cases hself rfl
  | granted =>
    refine hkeep rfl fun w hw => ?_
    obtain rfl := Stage.work.inj hw
    exact (idle_of_first hfits.2.2).1
  | _ => exact hkeep rfl (by simp [Work.isStoring])

/-- A step that leaves the record keeps the file as it should be, if it stores only what its call
has been storing. -/
theorem Filed.keep (h : s.Filed opens call.name) (hcall : s.calls.find? id = some call)
    (hadv : s.Advances t id call reply change stage)
    (hrecord : change.recordAfter (s.record? call.name) = s.record? call.name)
    (hstored : ∀ w, stage = .work w → w.Stored opens s call.name)
    (hstoring : ∀ w, stage = .work w → w.isStoring = true →
      ∃ v, call.stage = .work v ∧ v.isStoring = true)
    (hdone : ∀ x, call.operation = .create x → stage = .leave (.ok .done) →
      s.Holds opens call.name x ∧
        ∀ j v, j ≠ id → s.WorksOn call.name j v → v.isStoring = false) :
    t.Filed opens call.name := by
  have hrecord' : t.record? call.name = s.record? call.name := by
    rw [hadv.record, if_pos rfl, hrecord]
  have hsame {x : Secret} (hholds : s.Holds opens call.name x) : t.Holds opens call.name x := by
    obtain ⟨record, hsome, hseals⟩ := hholds
    exact ⟨record, hrecord'.trans hsome, by rwa [hadv.settings]⟩
  -- whoever stores the file after the step stored it before
  have hbefore {j : Nat} {w : Work} (hj : t.WorksOn call.name j w) (hw : w.isStoring = true) :
      ∃ v, s.WorksOn call.name j v ∧ v.isStoring = true := by
    rcases hadv.worksOn_cases hj with ⟨rfl, hstage⟩ | ⟨-, hj⟩
    · obtain ⟨v, hv, hstoring'⟩ := hstoring w hstage hw
      exact ⟨v, ⟨call, hcall, rfl, hv⟩, hstoring'⟩
    · exact ⟨w, hj, hw⟩
  refine ⟨fun j w hj => ?_, fun i j w w' hi hj hw hw' => ?_, fun j x hother => ?_⟩
  · rcases hadv.worksOn_cases hj with ⟨-, hstage⟩ | ⟨-, hj⟩
    · exact (hstored w hstage).undisturbed hadv.settings hrecord'
    · exact (h.stored j w hj).undisturbed hadv.settings hrecord'
  · obtain ⟨v, hi, hv⟩ := hbefore hi hw
    obtain ⟨v', hj, hv'⟩ := hbefore hj hw'
    exact h.storing i j v v' hi hj hv hv'
  · rw [hadv.calls] at hother
    split at hother
    case isTrue heq =>
      have hcreate := congrArg Call.operation (Option.some.inj hother)
      have hleave := congrArg Call.stage (Option.some.inj hother)
      obtain ⟨hholds, hidle⟩ := hdone x hcreate hleave
      refine ⟨hsame hholds, fun k w hk => ?_⟩
      rcases hadv.worksOn_cases hk with ⟨-, hstage⟩ | ⟨hne, hk⟩
      · cases hleave.symm.trans hstage
      · exact hidle k w hne hk
    case isFalse =>
      obtain ⟨hholds, hidle⟩ := h.done j x hother
      refine ⟨hsame hholds, fun k w hk => ?_⟩
      by_contra hw
      obtain ⟨v, hk, hv⟩ := hbefore hk (by simpa using hw)
      rw [hidle k v hk] at hv
      cases hv

/-- A step that changes the record keeps the file as it should be, if nobody else is storing it or
has just stored it. -/
theorem Filed.replace (hadv : s.Advances t id call reply change stage)
    (hothers : ∀ j v, j ≠ id → s.WorksOn call.name j v → v.isStoring = false)
    (hundone : ∀ j x, s.calls.find? j = some ⟨call.name, .create x, .leave (.ok .done)⟩ → j = id)
    (hleave : stage ≠ .leave (.ok .done))
    (hstored : ∀ w, stage = .work w → w.Stored opens t call.name) : t.Filed opens call.name := by
  have hself {j : Nat} {w : Work} (hj : t.WorksOn call.name j w) (hw : w.isStoring = true) :
      j = id := by
    rcases hadv.worksOn_cases hj with ⟨rfl, -⟩ | ⟨hne, hj⟩
    · rfl
    · rw [hothers j w hne hj] at hw
      cases hw
  refine ⟨fun j w hj => ?_, fun i j w w' hi hj hw hw' => (hself hi hw).trans (hself hj hw').symm,
    fun j x hother => ?_⟩
  · rcases hadv.worksOn_cases hj with ⟨-, hstage⟩ | ⟨hne, hj⟩
    · exact hstored w hstage
    · exact stored_of_idle (hothers j w hne hj)
  · rw [hadv.calls] at hother
    split at hother
    case isTrue => exact absurd (congrArg Call.stage (Option.some.inj hother)) hleave
    case isFalse hne => exact absurd (hundone j x hother) hne

/-- A step that leaves the record and has nothing to do with storing it. -/
theorem Filed.quiet (h : s.Filed opens call.name) (hcall : s.calls.find? id = some call)
    (hadv : s.Advances t id call reply change stage)
    (hrecord : change.recordAfter (s.record? call.name) = s.record? call.name)
    (hidle : ∀ w, stage = .work w → w.isStoring = false)
    (hleave : stage = .leave (.ok .done) → call.operation = .delete) : t.Filed opens call.name := by
  refine h.keep hcall hadv hrecord (fun w hw => stored_of_idle (hidle w hw))
    (fun w hw hstoring => ?_) fun x hx hdone => by cases hx.symm.trans (hleave hdone)
  rw [hidle w hw] at hstoring
  cases hstoring

/-- Each step keeps the file of its key as it should be. -/
theorem Filed.advances (h : s.Filed opens call.name) (hfiles : s.settings.backend ≠ .memory)
    (hsound : s.Sound) (hcarries : call.stage.Carries s.settings opens)
    (hcall : s.calls.find? id = some call)
    (hadv : s.Advances t id call reply change stage) : t.Filed opens call.name := by
  have hfits := hsound.fits id call hcall
  have hself {w : Work} (hstage : call.stage = .work w) : s.WorksOn call.name id w :=
    ⟨call, hcall, rfl, hstage⟩
  -- nobody else is storing the file, or has stored it, while the call does
  have hothers {w : Work} (hstage : call.stage = .work w) (hw : w.isStoring = true) (j : Nat)
      (v : Work) (hne : j ≠ id) (hj : s.WorksOn call.name j v) : v.isStoring = false := by
    by_contra hv
    exact hne (h.storing j id v w hj (hself hstage) (by simpa using hv) hw)
  have hundone {w : Work} (hstage : call.stage = .work w) (hw : w.isStoring = true) (j : Nat)
      (x : Secret) (hj : s.calls.find? j = some ⟨call.name, .create x, .leave (.ok .done)⟩) :
      j = id := by
    rw [(h.done j x hj).idle id w (hself hstage)] at hw
    cases hw
  have hstored {w : Work} (hstage : call.stage = .work w) : w.Stored opens s call.name :=
    h.stored id w (hself hstage)
  obtain ⟨name, operation, before⟩ := call
  dsimp only at h hfits hcarries hself hothers hundone hstored hadv ⊢
  have hnext := hadv.next
  cases hnext with
  | granted =>
    refine h.quiet hcall hadv rfl (fun w hw => ?_) (by simp)
    obtain rfl := Stage.work.inj hw
    exact (idle_of_first hfits.2.2).1
  | fileMade hnone =>
    -- without a file, nobody is storing it or has stored it
    refine Filed.replace hadv (fun j v _ hj => ?_) (fun j x hj => ?_) (by simp) fun w hw => ?_
    · by_contra hv
      exact (h.stored j v hj).record_ne_none (by simpa using hv) hnone
    · obtain ⟨record, hrecord, -⟩ := (h.done j x hj).holds
      cases hnone.symm.trans hrecord
    · obtain rfl := Stage.work.inj hw
      refine ⟨(hcarries _ _ rfl).length_pos, ?_⟩
      rw [hadv.record, if_pos rfl]
      rfl
  | @wroteSome secret record content written limit hcontent hlt =>
    obtain ⟨hpart, hrecord⟩ := hstored (w := .write secret record written) rfl
    obtain rfl := Option.some.inj (hcontent.symm.trans hrecord)
    refine Filed.replace hadv (hothers rfl rfl) (hundone rfl rfl) (by simp) fun w hw => ?_
    obtain rfl := Stage.work.inj hw
    refine ⟨hlt, ?_⟩
    rw [hadv.record, if_pos rfl, Disk.overwrite_take record hpart.le]
    rfl
  | @wroteAll secret record content written limit hcontent hlast =>
    obtain ⟨hpart, hrecord⟩ := hstored (w := .write secret record written) rfl
    obtain rfl := Option.some.inj (hcontent.symm.trans hrecord)
    refine Filed.replace hadv (hothers rfl rfl) (hundone rfl rfl) (by simp) fun w hw => ?_
    obtain rfl := Stage.work.inj hw
    refine ⟨record, ?_, by rw [hadv.settings]; exact hcarries secret record rfl⟩
    rw [hadv.record, if_pos rfl, Disk.overwrite_take record hpart.le, List.take_of_length_le hlast]
    rfl
  -- what has failed is to be removed
  | @writeFailed secret record written fault | @flushFailed secret fault
  | @syncFailed secret fault =>
    refine h.keep hcall hadv rfl (fun w hw => ?_) (fun w _ _ => ⟨_, rfl, rfl⟩) (by simp)
    obtain rfl := Stage.work.inj hw
    exact (hstored rfl).record_ne_none rfl
  | @flushed secret =>
    refine h.keep hcall hadv rfl (fun w hw => ?_) (fun w _ _ => ⟨_, rfl, rfl⟩) (by simp)
    obtain rfl := Stage.work.inj hw
    exact hstored (w := .flush secret) rfl
  | @synced secret =>
    refine h.keep hcall hadv rfl (fun w hw => ?_) (fun w _ _ => ⟨_, rfl, rfl⟩) (by simp)
    obtain rfl := Stage.work.inj hw
    exact hstored (w := .sync secret) rfl
  | rolledBack =>
    exact Filed.replace hadv (hothers rfl rfl) (hundone rfl rfl) (by simp) (by simp)
  | inserted | insertTaken => exact absurd hfits.2.2 hfiles
  | @cachedCreated secret =>
    -- the call is about to return
    refine h.keep hcall hadv rfl (by simp) (by simp) fun x hx _ => ⟨?_, hothers rfl rfl⟩
    obtain rfl : secret = x := Operation.create.inj (hfits.2.symm.trans hx)
    exact hstored (w := .cacheCreated secret) rfl
  | removed =>
    -- nobody else is at work while the lock is held alone
    refine Filed.replace hadv (fun j v hne hj => ?_) (fun j x hj => ?_) (by simp) fun w hw => ?_
    · exact absurd (hsound.eq_of_exclusive (hself rfl) rfl hj).symm hne
    · exact (hsound.alone hcall hj rfl rfl trivial rfl).symm
    · obtain rfl := Stage.work.inj hw
      trivial
  | purged => exact h.quiet hcall hadv rfl (by simp) fun _ => hfits.2
  | _ => exact h.quiet hcall hadv rfl (by simp [Work.isStoring]) (by simp)

/-- A file that no call has in the making is not changed where nothing happens and no draft is given
up. -/
theorem Intact.undisturbed (h : s.Intact opens asked name) (hsame : s.Undisturbed t name)
    (hcalls : ∀ j other, t.calls.find? j = some other → other.name = name →
      s.calls.find? j = some other ∨ ∀ x, other.operation = .create x → asked x)
    (hdrafts : ∀ j w, s.WorksOn name j w → w.isDraft = true → t.WorksOn name j w) :
    t.Intact opens asked name where
  calls j other hother hname x hx := by
    rcases hcalls j other hother hname with hold | hnew
    · exact h.calls j other hold hname x hx
    · exact hnew x hx
  record record hrecord := by
    rw [hsame.settings]
    refine (h.record record (hsame.record.symm.trans hrecord)).imp_right ?_
    rintro ⟨j, w, hj, hw⟩
    exact ⟨j, w, hdrafts j w hj hw, hw⟩

theorem Intact.newCall (h : s.Intact opens asked name) {n : String} {operation : Operation}
    (hfresh : s.calls.find? id = none)
    (hasked : ∀ secret, n = name → operation = .create secret → asked secret) :
    (s.call id n operation).Intact opens asked name := by
  refine h.undisturbed (undisturbed_call s id n operation name) (fun j other hother hname => ?_)
    fun j w hj _ => (worksOn_call_iff hfresh).2 hj
  rw [Store.call, FiniteMap.find?_insert] at hother
  split at hother
  · obtain rfl := Option.some.inj hother
    exact .inr fun secret hcreate => hasked secret hname hcreate
  · exact .inl hother

/-- A step of a call under another name. -/
theorem Intact.elsewhere (h : s.Intact opens asked name) (hcall : s.calls.find? id = some call)
    (hne : call.name ≠ name) (hadv : s.Advances t id call reply change stage) :
    t.Intact opens asked name := by
  refine h.undisturbed (hadv.undisturbed hne) (fun j other hother hname => .inl ?_)
    fun j w hj _ => (hadv.worksOn_iff_of_ne hcall hne).2 hj
  rw [hadv.calls] at hother
  split at hother
  · obtain rfl := Option.some.inj hother
    exact absurd hname hne
  · exact hother

theorem Intact.fades (h : s.Intact opens asked name) (hfades : s.Fades t) :
    t.Intact opens asked name := by
  refine h.undisturbed (hfades.undisturbed name) (fun j other hother _ => .inl ?_)
    fun j w hj _ => hfades.worksOn_iff.2 hj
  rwa [hfades.calls] at hother

/-- A call that is given up leaves no draft behind, if it has none. -/
theorem Intact.abandon (h : s.Intact opens asked name)
    (hidle : ∀ call ∈ s.calls.find? id, call.name = name →
      call.stage.work?.any Work.isDraft = false) :
    (s.abandon id).Intact opens asked name := by
  refine h.undisturbed (undisturbed_abandon s id name)
    (fun j other hother _ => .inl (find?_of_abandon hother).2) fun j w hj hw => ?_
  -- the draft is one of another call
  obtain ⟨call, hcall, hname, hstage⟩ := hj
  have hne : j ≠ id := by
    rintro rfl
    have hnone := hidle call hcall hname
    rw [hstage] at hnone
    cases hw.symm.trans hnone
  exact ⟨call, by rw [find?_abandon, if_neg hne, hcall], hname, hstage⟩

theorem Intact.reopen (h : s.Intact opens asked name) (hfiles : s.settings.backend ≠ .memory)
    (hidle : ¬s.SomeWorks name Work.isDraft) : s.reopen.Intact opens asked name :=
  h.undisturbed (undisturbed_reopen hfiles name) (fun _ _ hother _ => by cases hother)
    fun j w hj hw => absurd (someWorks_iff.2 ⟨j, w, hj, hw⟩) hidle

/-- Each step leaves no draft behind, if the file of a call that has failed is removed. -/
theorem Intact.advances (h : s.Intact opens asked call.name) (hfiled : s.Filed opens call.name)
    (hfiles : s.settings.backend ≠ .memory) (hsound : s.Sound)
    (hcarries : call.stage.Carries s.settings opens) (hcall : s.calls.find? id = some call)
    (hrolls : call.stage.work?.any Work.isRollBack = true →
      s.removal call.name reply.device = .done)
    (hadv : s.Advances t id call reply change stage) : t.Intact opens asked call.name := by
  refine ⟨hadv.forall_calls (h.calls id call hcall) fun j other _ => h.calls j other,
    fun record hrecord => ?_⟩
  have hfits := hsound.fits id call hcall
  have hself {w : Work} (hstage : call.stage = .work w) : s.WorksOn call.name id w :=
    ⟨call, hcall, rfl, hstage⟩
  rw [hadv.settings]
  rw [hadv.record, if_pos rfl] at hrecord
  -- the call has a draft
  have hdrafting {w : Work} (hstage : stage = .work w) (hw : w.isDraft = true) :
      ∃ j w, t.WorksOn call.name j w ∧ w.isDraft = true :=
    ⟨id, w, hadv.worksOn_iff.2 (by rw [if_pos rfl]; exact ⟨rfl, hstage⟩), hw⟩
  -- the record is as it was, and so is the draft of another call
  have hkeep (hsame : s.record? call.name = some record)
      (hidle : ∀ w, call.stage = .work w → w.isDraft = false) :
      (∃ secret, asked secret ∧ Seals s.settings opens secret record) ∨
        ∃ j w, t.WorksOn call.name j w ∧ w.isDraft = true := by
    refine (h.record record hsame).imp_right ?_
    rintro ⟨j, w, hj, hw⟩
    refine ⟨j, w, hadv.worksOn_iff.2 ?_, hw⟩
    rw [if_neg]
    · exact hj
    · rintro rfl
      rw [hidle w (hj.of_call hcall).2] at hw
      cases hw
  obtain ⟨name, operation, before⟩ := call
  dsimp only at h hfiled hfits hcarries hself hrolls hrecord hdrafting hkeep hadv ⊢
  have hnext := hadv.next
  cases hnext with
  | fileMade | wroteSome | writeFailed | flushFailed | syncFailed => exact .inr (hdrafting rfl rfl)
  | @wroteAll secret whole content written limit hcontent hlast =>
    -- the last bytes complete the record
    obtain ⟨hpart, hsome⟩ := hfiled.stored id _ (hself (w := .write secret whole written) rfl)
    obtain rfl := Option.some.inj (hcontent.symm.trans hsome)
    rw [Change.recordAfter, Disk.overwrite_take whole hpart.le,
      List.take_of_length_le hlast] at hrecord
    obtain rfl := Option.some.inj hrecord
    exact .inl ⟨secret, h.calls id _ hcall rfl secret hfits.2.1, hcarries secret whole rfl⟩
  | rolledBack | removed => cases hrecord
  | notRolledBack hfailed => exact absurd (hrolls rfl) hfailed
  | inserted | insertTaken => exact absurd hfits.2.2 hfiles
  | _ => exact hkeep hrecord (by simp [Work.isDraft])

/-! ### Runs -/

/-- What a call is to store, and the file of a key, are as they should be. -/
structure Orderly (opens : Ciphertext → Option Secret) (settings : Settings) (name : String)
    (s : Store) : Prop where
  settings : s.settings = settings
  carrying : Carrying opens s
  filed : s.Filed opens name

theorem orderly_new (settings : Settings) (disk : Disk) (now : Nat) (name : String) :
    (new settings disk now).Orderly opens settings name where
  settings := rfl
  carrying := carrying_new settings disk now
  filed :=
    { stored := fun id w ⟨call, hcall, _⟩ => by cases hcall
      storing := fun id j w w' ⟨call, hcall, _⟩ => by cases hcall
      done := fun id secret hcall => by cases hcall }

theorem intact_new {disk : Disk} {now : Nat}
    (hnone : (new settings disk now).record? name = none) :
    (new settings disk now).Intact opens asked name where
  calls id call hcall := by cases hcall
  record record hrecord := by cases hnone.symm.trans hrecord

theorem Orderly.newCall (h : s.Orderly opens settings name) (id : Nat) (n : String)
    (operation : Operation) : (s.call id n operation).Orderly opens settings name where
  settings := h.settings
  carrying := h.carrying.newCall
  filed := h.filed.undisturbed (undisturbed_call s id n operation name)

theorem Orderly.fades (h : s.Orderly opens settings name) (hfades : s.Fades t) :
    t.Orderly opens settings name where
  settings := hfades.settings.trans h.settings
  carrying := h.carrying.fades hfades
  filed := h.filed.undisturbed (hfades.undisturbed name)

theorem Orderly.abandon (h : s.Orderly opens settings name) (id : Nat) :
    (s.abandon id).Orderly opens settings name where
  settings := h.settings
  carrying j other hother := h.carrying j other (find?_of_abandon hother).2
  filed := h.filed.undisturbed (undisturbed_abandon s id name)

/-- A call that writes a record has written a part of it. -/
theorem Orderly.part_of_writing (h : s.Orderly opens settings name) {record : List UInt8}
    {written : Nat} (hwrites : s.WorksOn name id (.write secret record written)) :
    s.record? name = some (record.take written) ∧ Seals settings opens secret record ∧
      written < record.length := by
  obtain ⟨hpart, hrecord⟩ := h.filed.stored id _ hwrites
  obtain ⟨call, hcall, -, hstage⟩ := hwrites
  have hcarries := h.carrying id call hcall
  rw [hstage, h.settings] at hcarries
  exact ⟨hrecord, hcarries secret record rfl, hpart⟩

variable (hfiles : settings.backend ≠ .memory)

include hfiles

theorem Orderly.reopen (h : s.Orderly opens settings name) :
    s.reopen.Orderly opens settings name where
  settings := h.settings
  carrying := carrying_new s.settings s.disk s.cache.now
  filed := h.filed.undisturbed (undisturbed_reopen (by rwa [h.settings]) name)

theorem Orderly.advances (h : s.Orderly opens settings name) (hsound : s.Sound)
    (hcall : s.calls.find? id = some call) (hhonest : reply.Honest opens call.stage)
    (hadv : s.Advances t id call reply change stage) : t.Orderly opens settings name where
  settings := hadv.settings.trans h.settings
  carrying := h.carrying.advances hcall hhonest hadv
  filed := by
    by_cases hname : call.name = name
    · subst hname
      exact h.filed.advances (by rwa [h.settings]) hsound (h.carrying id call hcall) hcall hadv
    · exact h.filed.undisturbed (hadv.undisturbed hname)

variable {incidents : List Incident} {disk : Disk} {now : Nat}

/-- There is order after a run. -/
theorem Lawful.orderly (hlawful : Lawful (Incident.Honest opens) s incidents) (hsound : s.Sound)
    (hs : s.Orderly opens settings name) :
    (s.befallAll incidents).Sound ∧ (s.befallAll incidents).Orderly opens settings name :=
  hlawful.keeps (fun _ id n operation _ h _ _ => h.newCall id n operation)
    (fun _ _ call _ _ _ hsound h hcall hhonest hadv =>
      h.advances hfiles hsound hcall (hhonest call hcall) hadv)
    (fun _ _ _ h hfades => h.fades hfades) (fun _ id _ h _ => h.abandon id)
    (fun _ _ h _ => h.reopen hfiles) hsound hs

/-- Without drafts that are left behind, files are intact after a run. -/
theorem Lawful.intact
    (hlawful : Lawful (fun s i => i.Honest opens s ∧ LeavesNoDraft name s i ∧
      ∀ id secret, i = .move (.call id name (.create secret)) → asked secret) s incidents)
    (hsound : s.Sound) (hs : s.Orderly opens settings name) (hintact : s.Intact opens asked name) :
    (s.befallAll incidents).Intact opens asked name := by
  refine (hlawful.keeps (P := fun s => s.Orderly opens settings name ∧ s.Intact opens asked name)
    ?_ ?_ ?_ ?_ ?_ hsound ⟨hs, hintact⟩).2.2
  case refine_1 =>
    rintro u id n operation - ⟨h, hintact⟩ hfresh ⟨-, -, hasked⟩
    refine ⟨h.newCall id n operation, hintact.newCall hfresh fun secret hname hcreate => ?_⟩
    subst hname hcreate
    exact hasked id secret rfl
  case refine_2 =>
    rintro u id call reply change stage hsound ⟨h, hintact⟩ hcall ⟨hhonest, hrolls, -⟩ hadv
    refine ⟨h.advances hfiles hsound hcall (hhonest call hcall) hadv, ?_⟩
    by_cases hname : call.name = name
    · subst hname
      exact hintact.advances h.filed (by rwa [h.settings]) hsound (h.carrying id call hcall) hcall
        (hrolls call hcall rfl) hadv
    · exact hintact.elsewhere hcall hname hadv
  case refine_3 =>
    rintro u v - ⟨h, hintact⟩ hfades
    exact ⟨h.fades hfades, hintact.fades hfades⟩
  case refine_4 =>
    rintro u id - ⟨h, hintact⟩ ⟨-, hdraft, -⟩
    exact ⟨h.abandon id, hintact.abandon hdraft⟩
  case refine_5 =>
    rintro u - ⟨h, hintact⟩ ⟨-, hdraft, -⟩
    exact ⟨h.reopen hfiles, hintact.reopen (by rwa [h.settings]) hdraft⟩

/-- What the file of a key holds after a run of a new store that leaves no draft behind was to be
created in the run. -/
theorem Lawful.intact_of_new (hnone : (new settings disk now).record? name = none)
    (hhonest : Lawful (Incident.Honest opens) (new settings disk now) incidents)
    (hdrafts : Lawful (LeavesNoDraft name) (new settings disk now) incidents) :
    ((new settings disk now).befallAll incidents).Intact opens
      (fun secret => ∃ id, .move (.call id name (.create secret)) ∈ incidents) name := by
  refine Lawful.intact hfiles (hhonest.and (hdrafts.and_forall ?_)) (sound_new settings disk now)
    (orderly_new settings disk now name) (intact_new hnone)
  rintro i hi id secret rfl
  exact ⟨id, hi⟩

/-- What is kept is kept until it is removed. -/
theorem Lawful.kept (hlawful : Lawful (KeepsRecord name) s incidents) (hsound : s.Sound)
    (hsettings : s.settings = settings) (h : s.Kept opens name secret) :
    (s.befallAll incidents).Kept opens name secret := by
  refine (hlawful.keeps (P := fun s => s.settings = settings ∧ s.Kept opens name secret)
    ?_ ?_ ?_ ?_ ?_ hsound ⟨hsettings, h⟩).2.2
  case refine_1 =>
    rintro u id n operation - ⟨hsettings, h⟩ - -
    exact ⟨hsettings, h.undisturbed (undisturbed_call u id n operation _)⟩
  case refine_2 =>
    rintro u id call reply change stage hsound ⟨hsettings, h⟩ hcall hkeeps hadv
    refine ⟨hadv.settings.trans hsettings, ?_⟩
    by_cases hname : call.name = name
    · subst hname
      exact h.advances hsound hcall (hkeeps call hcall rfl) hadv
    · exact h.undisturbed (hadv.undisturbed hname)
  case refine_3 =>
    rintro u v - ⟨hsettings, h⟩ hfades
    exact ⟨hfades.settings.trans hsettings, h.undisturbed (hfades.undisturbed _)⟩
  case refine_4 =>
    rintro u id - ⟨hsettings, h⟩ -
    exact ⟨hsettings, h.undisturbed (undisturbed_abandon u id _)⟩
  case refine_5 =>
    rintro u - ⟨hsettings, h⟩ -
    rw [← hsettings] at hfiles
    exact ⟨hsettings, h.undisturbed (undisturbed_reopen hfiles _)⟩

omit hfiles in
/-- A call that returns now was about to. -/
theorem Completes.exists_leave {i : Incident} (hcompletes : Completes name secret s i)
    (hsound : s.Sound) (hfresh : i.Fresh s) :
    ∃ id reply, s.calls.find? id = some ⟨name, .create secret, .leave (.ok .done)⟩ ∧
      s.Advances (s.step id reply) id ⟨name, .create secret, .leave (.ok .done)⟩ reply .nothing
        (.finished (.ok .done)) ∧ i = .move (.step id reply) := by
  obtain ⟨id, hopen, hover⟩ := hcompletes
  -- the call was not over before
  have hnew (hsame : s.calls.find? id = some ⟨name, .create secret, .finished (.ok .done)⟩) :
      False := by
    cases hopen.symm.trans (outcome?_eq_some_iff.2 ⟨_, hsame, rfl⟩)
  cases i with
  | drop j => exact (hnew (find?_of_abandon hover).2).elim
  | restart => cases hover
  | move m =>
    rcases move_cases s m with ⟨j, n, operation, rfl⟩ | ⟨j, reply, rfl⟩ | hfades
    · simp only [befall, move, Store.call, FiniteMap.find?_insert] at hover
      split at hover
      · cases congrArg Call.stage (Option.some.inj hover)
      · exact (hnew hover).elim
    · cases hcall : s.calls.find? j with
      | none =>
        rw [befall, move, step, hcall] at hover
        exact (hnew hover).elim
      | some call =>
        obtain ⟨change, stage, hadv⟩ := exists_advances hcall (hsound.fits j call hcall) reply
        change (s.step j reply).calls.find? id = _ at hover
        rw [hadv.calls] at hover
        split at hover
        case isFalse => exact (hnew hover).elim
        case isTrue heq =>
          subst heq
          obtain ⟨n, operation, before⟩ := call
          obtain ⟨rfl, rfl, rfl⟩ := Call.mk.inj (Option.some.inj hover)
          have hnext := hadv.next
          dsimp only at hnext
          cases hnext with
          | left => exact ⟨id, reply, hcall, hadv, rfl⟩
          | finished => exact (hnew hcall).elim
    · change (s.move m).calls.find? id = _ at hover
      rw [hfades.calls] at hover
      exact (hnew hover).elim

omit hfiles in
/-- When a call returns that has created a secret, the secret is kept. -/
theorem Filed.kept_of_completes (h : s.Filed opens name) (hsound : s.Sound) {i : Incident}
    (hfresh : i.Fresh s) (hcompletes : Completes name secret s i) :
    (s.befall i).Kept opens name secret := by
  obtain ⟨id, reply, hcall, hadv, rfl⟩ := hcompletes.exists_leave hsound hfresh
  exact (h.done id secret hcall).advances hsound hcall (by simp) hadv

/-- What a call has created is stored until it is removed. -/
theorem Lawful.holds_of_completes {before after : List Incident} {i : Incident}
    (hlawful : Lawful (Incident.Honest opens) s (before ++ i :: after)) (hsound : s.Sound)
    (hs : s.Orderly opens settings name) (hcompletes : Completes name secret (s.befallAll before) i)
    (hkeeps : Lawful (KeepsRecord name) ((s.befallAll before).befall i) after) :
    (s.befallAll (before ++ i :: after)).Holds opens name secret := by
  obtain ⟨hbefore, hfresh, hhonest, -⟩ := lawful_append.1 hlawful
  obtain ⟨hsound', horderly⟩ := hbefore.orderly hfiles hsound hs
  have hkept := horderly.filed.kept_of_completes hsound' hfresh hcompletes
  have hone : Lawful (Incident.Honest opens) (s.befallAll before) [i] := ⟨hfresh, hhonest, trivial⟩
  obtain ⟨hsound'', horderly'⟩ := hone.orderly hfiles hsound' horderly
  rw [befallAll_append, befallAll_cons]
  exact (hkeeps.kept hfiles hsound'' horderly'.settings hkept).holds

end

/-! ### A store that is set up anew -/

/-- What a store that is set up anew after a run gives for a key with a valid name. -/
structure Recovers (opens : Ciphertext → Option Secret) (environment : Environment) (name : String)
    (s : Store) (incidents : List Incident) (outcome : Outcome) : Prop where
  /-- If there was no key before, and no draft was left behind: no key, or a secret that was to be
  created. -/
  found : s.record? name = none → Lawful (Incident.Honest opens) s incidents →
    Lawful (LeavesNoDraft name) s (incidents ++ [.restart]) →
    outcome = .error .keyNotFound ∨ ∃ id secret,
      .move (.call id name (.create secret)) ∈ incidents ∧ outcome = .ok (.secret secret)
  /-- The secret of a call that has created it, if its record was not removed since. -/
  kept : Lawful (Incident.Honest opens) s incidents → ∀ before i after secret,
    incidents = before ++ i :: after → Completes name secret (s.befallAll before) i →
    Lawful (KeepsRecord name) ((s.befallAll before).befall i) after →
    outcome = .ok (.secret secret)
  /-- A key that is not found can be created. -/
  again : outcome = .error .keyNotFound → ∀ secret,
    environment.Faithful s.settings opens [.call name (.create secret)] →
    (((s.befallAll incidents).reopen.act environment 0 (.call name .get)).act environment 1
      (.call name (.create secret))).outcome? 1 = some (.ok .done)
  /-- What nobody should find, if the file was being written. -/
  torn : Lawful (Incident.Honest opens) s incidents → ∀ id secret record written,
    (s.befallAll incidents).WorksOn name id (.write secret record written) → Misread secret outcome
  /-- A sealed key, if the file holds a ciphertext that cannot be read. -/
  unreadable : s.settings.masterKey ≠ none → ∀ c : Ciphertext,
    (s.befallAll incidents).record? name = some c.toRecord → ¬c.Readable →
    outcome = .error .keySealed

section

variable {opens : Ciphertext → Option Secret} {s : Store} {name : String} {secret : Secret}
  {settings : Settings} {before now : Slot} {outcome : Outcome} {record : List UInt8}
  {environment : Environment}

/-- Who finds no key finds no record, and leaves none. -/
theorem Ends.eq_of_keyNotFound (h : Ends settings opens before .get (.error .keyNotFound) now) :
    before = ⟨none, none⟩ ∧ now = ⟨none, none⟩ := by
  cases h with
  | nothing hbefore => exact ⟨hbefore, hbefore⟩
  | unreadable _ _ hsealed hmalformed =>
    by_cases hkey : settings.masterKey = none
    · obtain ⟨reason, herror⟩ := hmalformed hkey
      cases herror
    · cases hsealed hkey

theorem Ends.get_of_none (h : Ends settings opens ⟨none, none⟩ .get outcome now) :
    outcome = .error .keyNotFound := by
  cases h with
  | hit hcached => cases hcached
  | nothing => rfl
  | read hbefore => cases hbefore
  | unreadable hbefore => cases hbefore

/-- Who reads a record finds the secret that it unseals to. -/
theorem Ends.get_of_some (h : Ends settings opens ⟨some record, none⟩ .get outcome now)
    (hopens : secretOf settings opens record = some secret) : outcome = .ok (.secret secret) := by
  cases h with
  | hit hcached => cases hcached
  | nothing hbefore => cases hbefore
  | read hbefore hopens' =>
    obtain rfl := Option.some.inj (congrArg Slot.record hbefore)
    obtain rfl := Option.some.inj (hopens.symm.trans hopens')
    rfl
  | unreadable hbefore hopens' =>
    obtain rfl := Option.some.inj (congrArg Slot.record hbefore)
    cases hopens.symm.trans hopens'

/-- Who reads a record that unseals to nothing finds a sealed or a malformed key. -/
theorem Ends.get_of_unreadable (h : Ends settings opens ⟨some record, none⟩ .get outcome now)
    (hopens : secretOf settings opens record = none) :
    (settings.masterKey ≠ none → outcome = .error .keySealed) ∧
      (settings.masterKey = none → ∃ reason, outcome = .error (.malformedSecret reason)) := by
  cases h with
  | hit hcached => cases hcached
  | nothing hbefore => cases hbefore
  | read hbefore hopens' =>
    obtain rfl := Option.some.inj (congrArg Slot.record hbefore)
    cases hopens.symm.trans hopens'
  | unreadable hbefore _ hsealed hmalformed =>
    refine ⟨fun hkey => congrArg _ (hsealed hkey), fun hkey => ?_⟩
    obtain ⟨reason, rfl⟩ := hmalformed hkey
    exact ⟨reason, rfl⟩

/-- Who reads a part of a record finds what nobody should. -/
theorem Ends.get_of_part {written : Nat}
    (h : Ends settings opens ⟨some (record.take written), none⟩ .get outcome now)
    (hseals : Seals settings opens secret record) (hpart : written < record.length) :
    Misread secret outcome := by
  cases hopens : secretOf settings opens (record.take written) with
  | none =>
    obtain ⟨hsealed, hmalformed⟩ := h.get_of_unreadable hopens
    by_cases hkey : settings.masterKey = none
    · obtain ⟨reason, rfl⟩ := hmalformed hkey
      trivial
    · rw [hsealed hkey]
      trivial
  | some other =>
    rw [h.get_of_some hopens]
    by_cases hkey : settings.masterKey = none
    · -- without a master key, the part is the record of another secret
      rw [secretOf, hkey] at hopens
      cases hread : Secret.ofRecord (settings.backend.readable (record.take written)) with
      | error fault =>
        rw [hread] at hopens
        cases hopens
      | ok read =>
        rw [hread] at hopens
        obtain rfl := Option.some.inj hopens
        exact hseals.ne_of_part hkey hpart hread
    · -- no part of a record is the record of a ciphertext
      obtain ⟨key, hkey'⟩ := Option.ne_none_iff_exists'.1 hkey
      rw [secretOf, hkey', hseals.ofRecord_part hkey hpart] at hopens
      cases hopens

theorem Ends.create_of_none (h : Ends settings opens ⟨none, none⟩ (.create secret) outcome now) :
    outcome = .ok .done := by
  cases h with
  | taken hcached => cases hcached
  | stored _ hrecord => cases hrecord
  | created => rfl

/-- A call of a store that is set up anew comes to its end. -/
theorem Hosted.get_reopen (h : s.Hosted) (hfiles : s.settings.backend ≠ .memory)
    (hfaithful : environment.Faithful s.settings opens [.call name .get]) :
    ∃ outcome t, s.reopen.act environment 0 (.call name .get) = t ∧ t.outcome? 0 = some outcome ∧
      t.Idle ∧ s.reopen.Apart t 0 name ∧
      Finishes s.settings opens name ⟨s.record? name, none⟩ .get outcome (t.slot name) := by
  have hnew : s.reopen.Idle := idle_new h s.cache.now
  have hfresh : s.reopen.calls.find? 0 = none := rfl
  obtain ⟨outcome, t, hrun, houtcome, hidle, hapart, hfinishes⟩ :=
    hnew.complete hfresh name .get (hfaithful name .get (List.mem_singleton.2 rfl) 0)
  refine ⟨outcome, t, hrun, houtcome, hidle, hapart, ?_⟩
  have hslot : s.reopen.slot name = ⟨s.record? name, none⟩ :=
    Slot.ext (record?_reopen hfiles name) rfl
  rw [← hslot]
  exact hfinishes

/-- A key that is not found can be created. -/
theorem Idle.create (h : s.Idle) (hfresh : s.calls.find? 1 = none) (hvalid : KeyName.Valid name)
    (hslot : s.slot name = ⟨none, none⟩)
    (hfaithful : environment.Faithful s.settings opens [.call name (.create secret)]) :
    (s.act environment 1 (.call name (.create secret))).outcome? 1 = some (.ok .done) := by
  obtain ⟨outcome, t, hrun, houtcome, -, -, hfinishes⟩ := h.complete hfresh name (.create secret)
    (hfaithful name (.create secret) (List.mem_singleton.2 rfl) 1)
  rw [Finishes, KeyName.validate_eq_ok_iff.2 hvalid, hslot] at hfinishes
  rw [act, hrun, houtcome, Ends.create_of_none hfinishes]

variable {disk : Disk} {now' : Nat} {directory : String} {incidents : List Incident}

/-- **What an interruption leaves of a key.** A key store of files is set up anew after a run that
was interrupted anywhere. It finds no key, or a secret that was to be created, if there was no key
before and no call that had a draft of the file was given up. In any case it finds the secret of a
call that had returned, until the file is removed, and it creates a key that it does not find.

Drafts and ciphertexts are what it takes: a file that was being written, or that holds a ciphertext
that cannot be read, is found as nobody should find it. A name that is not valid is refused. -/
theorem exists_recovers (hfiles : settings.backend = .files directory)
    (hdisk : disk.Hosts directory)
    (hlawful : Lawful (fun _ _ => True) (new settings disk now') incidents)
    (hfaithful : environment.Faithful settings opens [.call name .get]) :
    ∃ outcome, (((new settings disk now').befallAll incidents).reopen.act environment 0
        (.call name .get)).outcome? 0 = some outcome ∧
      match KeyName.validate name with
      | .error error => outcome = .error error
      | .ok () => Recovers opens environment name (new settings disk now') incidents outcome := by
  have hsound := sound_new settings disk now'
  have horderly : (new settings disk now').Orderly opens settings name :=
    orderly_new settings disk now' name
  have hhosted : (new settings disk now').Hosted := by
    intro other hother
    obtain rfl : directory = other := Backend.files.inj (hfiles.symm.trans hother)
    exact hdisk
  have hbackend : settings.backend ≠ .memory := by simp [hfiles]
  obtain ⟨-, hsettings, hhosted'⟩ := hlawful.hosted hsound hhosted
  change _ = settings at hsettings
  generalize hs : (new settings disk now').befallAll incidents = s at hsettings hhosted' ⊢
  rw [← hsettings] at hfaithful hbackend
  obtain ⟨outcome, t, hact, houtcome, hidle, hapart, hends⟩ :=
    hhosted'.get_reopen hbackend hfaithful
  rw [hsettings] at hbackend hends
  refine ⟨outcome, hact ▸ houtcome, ?_⟩
  rw [Finishes] at hends
  cases hvalid : KeyName.validate name with
  | error error =>
    rw [hvalid] at hends
    exact hends.1
  | ok =>
  rw [hvalid] at hends
  rw [KeyName.validate_eq_ok_iff] at hvalid
  -- who reads the record of a secret finds it
  have hfound {secret : Secret} {record : List UInt8} (hrecord : s.record? name = some record)
      (hseals : Seals s.settings opens secret record) : outcome = .ok (.secret secret) := by
    rw [hsettings] at hseals
    rw [hrecord] at hends
    exact hends.get_of_some hseals.secretOf_eq
  refine ⟨fun hnone hhonest hdrafts => ?_,
    fun hhonest before i after secret hsplit hcompletes hkeeps => ?_,
    fun hnotFound secret hagain => ?_, fun hhonest id secret record written hwrites => ?_,
    fun hkey c hrecord hunreadable => ?_⟩
  case refine_1 =>
    -- the run leaves no draft, and its end is a last incident that leaves none
    obtain ⟨hdrafts, -, hlast, -⟩ := lawful_append.1 hdrafts
    have hintact := Lawful.intact_of_new hbackend hnone hhonest hdrafts
    rw [hs] at hintact hlast
    cases hrecord : s.record? name with
    | none =>
      rw [hrecord] at hends
      exact .inl hends.get_of_none
    | some record =>
      rcases hintact.record record hrecord with ⟨secret, ⟨id, hid⟩, hseals⟩ | ⟨id, w, hid, hw⟩
      · exact .inr ⟨id, secret, hid, hfound hrecord hseals⟩
      · exact absurd (someWorks_iff.2 ⟨id, w, hid, hw⟩) hlast
  case refine_2 =>
    subst hsplit
    have hholds := hhonest.holds_of_completes hbackend hsound horderly hcompletes hkeeps
    rw [hs] at hholds
    obtain ⟨record, hrecord, hseals⟩ := hholds
    exact hfound hrecord hseals
  case refine_3 =>
    -- the call that found no key leaves none, and the store is idle again
    subst hnotFound
    obtain ⟨-, hnow⟩ := hends.eq_of_keyNotFound
    have hsettings' : t.settings = settings := hapart.settings.trans hsettings
    have hagain' : environment.Faithful t.settings opens [.call name (.create secret)] := by
      rwa [hsettings']
    rw [hs, hact]
    exact hidle.create (hapart.calls 1 (by decide)) hvalid hnow hagain'
  case refine_4 =>
    -- the file holds the part that is written
    obtain ⟨-, horderly'⟩ := hhonest.orderly hbackend hsound horderly
    obtain ⟨hrecord, hseals, hpart⟩ := horderly'.part_of_writing hwrites
    rw [hs] at hrecord
    rw [hrecord] at hends
    exact hends.get_of_part hseals hpart
  case refine_5 =>
    rw [hs] at hrecord
    rw [hrecord] at hends
    exact (hends.get_of_unreadable (secretOf_toRecord_eq_none hkey hunreadable)).1 hkey

end

namespace Sample

/-- One call that creates a key is given up before it has made a file, and another one is about to
return. -/
def untilReturn : List Incident :=
  (.call 1 "a" (.create secret) :: steps 1 7).map .move ++ .drop 1 ::
    (.call 2 "a" (.create secret) :: steps 2 13).map .move

/-- The process stops before a call that deletes the key has its lock, and the key is read. -/
def afterReturn : List Incident :=
  (.call 3 "a" .delete :: steps 3 3).map .move ++ .restart ::
    (.call 1 "a" .get :: steps 1 8).map .move

/-- The process stops when a file has been made, and nothing is written yet. -/
def cutBeforeWriting : List Incident :=
  (.call 1 "a" (.create secret) :: steps 1 9).map .move ++ [.restart]

/-- A call is given up when two of the four digits are written, and the process stops. -/
def cutWhileWriting : List Incident :=
  (.call 1 "a" (.create secret) :: (steps 1 8 ++ [.step 1 (reply 1)])).map .move ++
    [.drop 1, .restart]

end Sample

/-- A key that was created is there after the process has stopped, although another call that was to
create it was given up. -/
theorem exists_recovers_untilReturn :
    (((Sample.filesWith (some "k")).befallAll
        (Sample.untilReturn ++ .move (.step 2 (Sample.reply 100)) :: Sample.afterReturn)).reopen.act
      Sample.answers 0 (.call "a" .get)).outcome? 0 = some (.ok (.secret Sample.secret)) := by
  have hlawful : Lawful (fun _ _ => True) (Sample.filesWith (some "k"))
      (Sample.untilReturn ++ .move (.step 2 (Sample.reply 100)) :: Sample.afterReturn) := by
    decide +kernel
  have hhonest : Lawful (Incident.Honest Sample.opens) (Sample.filesWith (some "k"))
      (Sample.untilReturn ++ .move (.step 2 (Sample.reply 100)) :: Sample.afterReturn) := by
    decide +kernel
  have hfaithful : Sample.answers.Faithful (Sample.settings (.files "keys") (some "k"))
      Sample.opens [.call "a" .get] :=
    Sample.answers_faithful _ fun name x hmem => by simp at hmem
  obtain ⟨outcome, houtcome, hrecovers⟩ :=
    exists_recovers rfl (.there Sample.disk_serves) hlawful hfaithful
  rw [show KeyName.validate "a" = .ok () by decide +kernel] at hrecovers
  have hcompletes : Completes "a" Sample.secret
      ((Sample.filesWith (some "k")).befallAll Sample.untilReturn)
      (.move (.step 2 (Sample.reply 100))) := ⟨2, by decide +kernel, by decide +kernel⟩
  have hkeeps : Lawful (KeepsRecord "a") (((Sample.filesWith (some "k")).befallAll
      Sample.untilReturn).befall (.move (.step 2 (Sample.reply 100)))) Sample.afterReturn := by
    decide +kernel
  rw [← hrecovers.kept hhonest _ _ _ Sample.secret rfl hcompletes hkeeps]
  exact houtcome

/-- A key that was being created when the process stopped is found sealed with a master key, and one
whose creation was given up is found to be another secret without one. -/
theorem misread_after_interruption :
    let s := (Sample.filesWith (some "k")).befallAll Sample.cutBeforeWriting
    let t := (Sample.filesWith none).befallAll Sample.cutWhileWriting
    Lawful (Incident.Honest Sample.opens) (Sample.filesWith (some "k")) Sample.cutBeforeWriting ∧
      Lawful (Incident.Honest Sample.opens) (Sample.filesWith none) Sample.cutWhileWriting ∧
      (s.run (.call 1 "a" .get :: Sample.steps 1 8)).outcome? 1 = some (.error .keySealed) ∧
      (t.run (.call 1 "a" .get :: Sample.steps 1 9)).outcome? 1 =
        some (.ok (.secret ⟨[0xaa], by decide, by decide⟩)) := by
  decide +kernel

end Keyring.Store
