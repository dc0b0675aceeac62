import Keyring.Proofs.Store.OwnFile

/-!
# Places that stay free

A store of files makes its own directory and the files of its keys. Where no directory stands and
the path of the store does not lead through, none comes to stand, so whoever finds something in the
place of a key's file has found that file.

- `Free`: no directory can take the place of a key's file;
- `Free.step`: a place stays free, whatever is done for this key and for others;
- `Free.record?_ne_none`: who finds the file of a key finds its record.
-/

namespace Keyring.Store

/-- No directory can take the place of the file of a key. -/
def Free (s : Store) (name : String) : Prop :=
  ∀ directory, s.settings.backend = .files directory → s.disk.Free directory name

instance decidableFree (s : Store) (name : String) : Decidable (s.Free name) :=
  match h : s.settings.backend with
  | .files directory => decidable_of_iff (s.disk.Free directory name)
      ⟨fun hfree other hother => Backend.files.inj (h.symm.trans hother) ▸ hfree,
        fun hfree => hfree directory h⟩
  | .memory => isTrue fun directory hfiles => by cases h.symm.trans hfiles

variable {s t : Store} {id : Nat} {name other directory : String} {reply : Reply} {call : Call}
  {change : Change} {stage : Stage} {secret : Secret} {record : List UInt8}

theorem Free.of_eq (h : s.Free name) (hsettings : t.settings = s.settings)
    (hdisk : t.disk = s.disk) : t.Free name := by
  intro directory hfiles
  rw [hsettings] at hfiles
  rw [hdisk]
  exact h directory hfiles

/-- A place stays free when any call makes a step. -/
theorem Free.step (h : s.Free name) (hsound : s.Sound) (id : Nat) (reply : Reply) :
    (s.step id reply).Free name := by
  intro directory hfiles
  cases hcall : s.calls.find? id with
  | none =>
    rw [Store.step, hcall] at hfiles ⊢
    exact h directory hfiles
  | some call =>
    have hfits := hsound.fits id call hcall
    obtain ⟨⟨change, hadv⟩, hdisk⟩ := exists_advances_perform hcall hfits reply
    rw [hadv.settings] at hfiles
    rw [hdisk]
    have hconfined := confined_perform id hfiles hfits reply
    exact (h directory hfiles).grows hconfined.grows hconfined.addsAlong

/-- Without a file, and with a free place for it, no call finds that there is one. -/
theorem Free.createFile_ne (h : s.Free name) (hvalid : KeyName.Valid name)
    (hfiles : s.settings.backend = .files directory) (hnone : s.record? name = none)
    (device : Disk.Reply) :
    (s.createFile directory name secret record device).2 ≠ .leave (.error .keyExists) := by
  rw [record?, hfiles] at hnone
  unfold createFile path
  cases device with
  | refuse fault => simp [failWith]
  | accept limit =>
    have hmakes := (h directory hfiles).createNew_ne hvalid hnone 0o600
    dsimp only
    split
    case h_1 => simp
    case h_2 he => exact absurd he hmakes
    case h_3 => simp [failWith]

/-- A call that finds the file of a key finds its record. -/
theorem Free.record?_ne_none (h : s.Free call.name) (hsound : s.Sound)
    (hcall : s.calls.find? id = some call)
    (hcreate : call.stage = .work (.createFile secret record))
    (hadv : s.Advances (s.step id reply) id call reply change (.leave (.error .keyExists))) :
    s.record? call.name ≠ none := by
  intro hnone
  have hfits := hsound.fits id call hcall
  obtain ⟨⟨_, hperform⟩, -⟩ := exists_advances_perform hcall hfits reply
  rw [hcreate] at hfits
  obtain ⟨hvalid, -, hmemory⟩ := hfits
  obtain ⟨directory, hfiles⟩ := exists_files hmemory
  have hstage : (s.perform id call reply).2 = .leave (.error .keyExists) := by
    have hself := (hperform.calls id).symm.trans (hadv.calls id)
    rw [if_pos rfl, if_pos rfl] at hself
    exact congrArg Call.stage (Option.some.inj hself)
  have hne : (s.createFile directory call.name secret record reply.device).2 ≠
      .leave (.error .keyExists) := h.createFile_ne hvalid hfiles hnone reply.device
  simp only [perform, hcreate, doWork, hfiles] at hstage
  exact hne hstage

end Keyring.Store
