import Keyring.Proofs.Store.Recovery

/-!
# Files that are being written

A call that writes the file of a key is the only one that does: the file was made when there was
none, and it is removed by the call itself or under the exclusive lock. So it finds in the file what
it has written, whatever the records are that the calls have to store.

- `Work.Drafted`: what a call that stores a file may rely on about it;
- `Drafted`: at most one call stores the file of a key, and finds it as it has left it;
- `Drafted.advances`, `Incident.drafted`: it does after each step, and whatever befalls the store.
-/

namespace Keyring.Store

/-- What a call that stores a file may rely on about it. -/
def Work.Drafted (s : Store) (name : String) : Work → Prop
  | .write _ record written =>
    written ≤ record.length ∧ s.record? name = some (record.take written)
  | .flush _ | .sync _ | .rollBack _ | .cacheCreated _ => s.record? name ≠ none
  | _ => True

/-- The file of a key is as the only call that stores it has left it. -/
structure Drafted (s : Store) (name : String) : Prop where
  stored : ∀ id w, s.WorksOn name id w → w.Drafted s name
  single : ∀ id j w w', s.WorksOn name id w → s.WorksOn name j w' → w.isStoring = true →
    w'.isStoring = true → id = j

variable {s t : Store} {id : Nat} {name : String} {reply : Reply} {call : Call} {stage : Stage}
  {change : Change} {w : Work} {i : Incident}

/-- Work that stores nothing expects nothing of the file. -/
theorem drafted_of_idle (h : w.isStoring = false) : w.Drafted s name := by
  cases w <;> trivial

/-- While a file is being stored, there is one. -/
theorem Work.Drafted.record_ne_none (h : w.Drafted s name) (hstoring : w.isStoring = true) :
    s.record? name ≠ none := by
  cases w with
  | write x record written =>
    rw [h.2]
    simp
  | flush | sync | rollBack | cacheCreated => exact h
  | _ => cases hstoring

theorem Work.Drafted.of_record_eq (h : w.Drafted s name)
    (hrecord : t.record? name = s.record? name) : w.Drafted t name := by
  cases w with
  | write x record written => exact ⟨h.1, hrecord.trans h.2⟩
  | flush | sync | rollBack | cacheCreated => exact fun hnone => h (hrecord.symm.trans hnone)
  | _ => trivial

theorem Drafted.undisturbed (h : s.Drafted name) (hsame : s.Undisturbed t name) :
    t.Drafted name where
  stored id w hid := (h.stored id w (hsame.worksOn hid)).of_record_eq hsame.record
  single id j w w' hid hj := h.single id j w w' (hsame.worksOn hid) (hsame.worksOn hj)

/-- Without calls no file is being written. -/
theorem drafted_of_no_calls (h : s.calls = .empty) (name : String) : s.Drafted name := by
  have hidle (id : Nat) (w : Work) : ¬s.WorksOn name id w := by
    rintro ⟨call, hcall, -⟩
    rw [h] at hcall
    cases hcall
  exact ⟨fun id w hid => absurd hid (hidle id w), fun id j w w' hid => absurd hid (hidle id w)⟩

/-! ### Steps -/

/-- A step that leaves the record, and stores the file only if its call did before. -/
theorem Drafted.keep (h : s.Drafted call.name) (hcall : s.calls.find? id = some call)
    (hadv : s.Advances t id call reply change stage)
    (hrecord : change.recordAfter (s.record? call.name) = s.record? call.name)
    (hstage : ∀ w, stage = .work w → w.isStoring = false ∨
      w.Drafted s call.name ∧ ∃ v, call.stage = .work v ∧ v.isStoring = true) :
    t.Drafted call.name := by
  have hrecord' : t.record? call.name = s.record? call.name := by
    rw [hadv.record, if_pos rfl, hrecord]
  -- whoever stores the file after the step stored it before
  have hbefore {j : Nat} {w : Work} (hj : t.WorksOn call.name j w) (hw : w.isStoring = true) :
      w.Drafted s call.name ∧ ∃ v, s.WorksOn call.name j v ∧ v.isStoring = true := by
    rcases hadv.worksOn_cases hj with ⟨rfl, hstage'⟩ | ⟨-, hj⟩
    · obtain hidle | ⟨hdrafted, v, hv, hstoring⟩ := hstage w hstage'
      · cases hw.symm.trans hidle
      · exact ⟨hdrafted, v, ⟨call, hcall, rfl, hv⟩, hstoring⟩
    · exact ⟨h.stored j w hj, w, hj, hw⟩
  refine ⟨fun j w hj => ?_, fun i j w w' hi hj hw hw' => ?_⟩
  · by_cases hw : w.isStoring = true
    · exact (hbefore hj hw).1.of_record_eq hrecord'
    · exact drafted_of_idle (by simpa using hw)
  · obtain ⟨-, v, hi, hv⟩ := hbefore hi hw
    obtain ⟨-, v', hj, hv'⟩ := hbefore hj hw'
    exact h.single i j v v' hi hj hv hv'

/-- A step that changes the record while nobody else is storing it. -/
theorem Drafted.replace (hadv : s.Advances t id call reply change stage)
    (hothers : ∀ j v, j ≠ id → s.WorksOn call.name j v → v.isStoring = false)
    (hstored : ∀ w, stage = .work w → w.Drafted t call.name) : t.Drafted call.name := by
  have hself {j : Nat} {w : Work} (hj : t.WorksOn call.name j w) (hw : w.isStoring = true) :
      j = id := by
    rcases hadv.worksOn_cases hj with ⟨rfl, -⟩ | ⟨hne, hj⟩
    · rfl
    · rw [hothers j w hne hj] at hw
      cases hw
  refine ⟨fun j w hj => ?_, fun i j w w' hi hj hw hw' => (hself hi hw).trans (hself hj hw').symm⟩
  rcases hadv.worksOn_cases hj with ⟨-, hstage⟩ | ⟨hne, hj⟩
  · exact hstored w hstage
  · exact drafted_of_idle (hothers j w hne hj)

/-- Each step keeps the file of its key as it should be. -/
theorem Drafted.advances (h : s.Drafted call.name) (hsound : s.Sound)
    (hcall : s.calls.find? id = some call)
    (hadv : s.Advances t id call reply change stage) : t.Drafted call.name := by
  have hfits := hsound.fits id call hcall
  have hself {w : Work} (hstage : call.stage = .work w) : s.WorksOn call.name id w :=
    ⟨call, hcall, rfl, hstage⟩
  have hstored {w : Work} (hstage : call.stage = .work w) : w.Drafted s call.name :=
    h.stored id w (hself hstage)
  -- nobody else is storing the file while the call does, or while there is none
  have hothers {w : Work} (hstage : call.stage = .work w) (hw : w.isStoring = true) (j : Nat)
      (v : Work) (hne : j ≠ id) (hj : s.WorksOn call.name j v) : v.isStoring = false := by
    by_contra hv
    exact hne (h.single j id v w hj (hself hstage) (by simpa using hv) hw)
  have hnobody (hnone : s.record? call.name = none) (j : Nat) (v : Work) (_ : j ≠ id)
      (hj : s.WorksOn call.name j v) : v.isStoring = false := by
    by_contra hv
    exact (h.stored j v hj).record_ne_none (by simpa using hv) hnone
  obtain ⟨name, operation, before⟩ := call
  dsimp only at h hfits hself hothers hnobody hstored hadv ⊢
  have hnext := hadv.next
  cases hnext with
  | granted =>
    refine h.keep hcall hadv rfl fun w hw => .inl ?_
    obtain rfl := Stage.work.inj hw
    exact (idle_of_first hfits.2.2).1
  | fileMade hnone =>
    refine Drafted.replace hadv (hnobody hnone) fun w hw => ?_
    obtain rfl := Stage.work.inj hw
    refine ⟨Nat.zero_le _, ?_⟩
    rw [hadv.record, if_pos rfl]
    rfl
  | inserted hnone =>
    refine Drafted.replace hadv (hnobody hnone) fun w hw => ?_
    obtain rfl := Stage.work.inj hw
    rw [Work.Drafted, hadv.record, if_pos rfl]
    exact Option.some_ne_none _
  | @wroteSome secret record content written limit hcontent hlt =>
    obtain ⟨hpart, hrecord⟩ := hstored (w := .write secret record written) rfl
    obtain rfl := Option.some.inj (hcontent.symm.trans hrecord)
    refine Drafted.replace hadv (hothers rfl rfl) fun w hw => ?_
    obtain rfl := Stage.work.inj hw
    refine ⟨hlt.le, ?_⟩
    rw [hadv.record, if_pos rfl, Disk.overwrite_take record hpart]
    rfl
  | wroteAll =>
    refine Drafted.replace hadv (hothers rfl rfl) fun w hw => ?_
    obtain rfl := Stage.work.inj hw
    rw [Work.Drafted, hadv.record, if_pos rfl]
    exact Option.some_ne_none _
  -- what goes on with the file finds it there
  | writeFailed | flushed | flushFailed | synced | syncFailed =>
    refine h.keep hcall hadv rfl fun w hw => .inr ⟨?_, _, rfl, rfl⟩
    obtain rfl := Stage.work.inj hw
    exact (hstored rfl).record_ne_none rfl
  | rolledBack => exact Drafted.replace hadv (hothers rfl rfl) (by simp)
  | removed =>
    -- nobody else is at work while the lock is held alone
    refine Drafted.replace hadv (fun j v hne hj => ?_) fun w hw => ?_
    · exact absurd (hsound.eq_of_exclusive (hself rfl) rfl hj).symm hne
    · obtain rfl := Stage.work.inj hw
      trivial
  | _ => exact h.keep hcall hadv rfl (by simp [Work.isStoring])

/-- Each step keeps the files of all keys as they should be. -/
theorem Advances.drafted (hadv : s.Advances t id call reply change stage) (hsound : s.Sound)
    (hcall : s.calls.find? id = some call) (h : ∀ name, s.Drafted name) (name : String) :
    t.Drafted name := by
  by_cases hname : call.name = name
  · subst hname
    exact (h call.name).advances hsound hcall hadv
  · exact (h name).undisturbed (hadv.undisturbed hname)

/-- Whatever befalls a store, its files stay as the calls that store them have left them. -/
theorem Incident.drafted (hfresh : i.Fresh s) (hsound : s.Sound) (h : ∀ name, s.Drafted name) :
    (s.befall i).Sound ∧ ∀ name, (s.befall i).Drafted name := by
  have hlawful : Lawful (fun _ _ => True) s [i] := ⟨hfresh, trivial, trivial⟩
  refine hlawful.keeps (P := fun s => ∀ name, s.Drafted name) ?_ ?_ ?_ ?_ ?_ hsound h
  · exact fun s id n operation _ h _ _ name => (h name).undisturbed (undisturbed_call ..)
  · exact fun s id call reply change stage hsound h hcall _ hadv => hadv.drafted hsound hcall h
  · exact fun s t _ h hfades name => (h name).undisturbed (hfades.undisturbed name)
  · exact fun s id _ h _ name => (h name).undisturbed (undisturbed_abandon s id name)
  · exact fun s _ _ _ name => drafted_of_no_calls rfl name

end Keyring.Store
