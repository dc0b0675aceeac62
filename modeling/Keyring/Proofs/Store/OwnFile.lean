import Keyring.Proofs.Disk.Directories
import Keyring.Proofs.Store.Alone

/-!
# The entries of a disk that a call changes

A call for a key of a store of files makes the directories that are missing on the way to the store,
if it is to create the key, and makes, writes and removes the file of the key. It changes no other
entry of the disk, and never a directory.

- `Disk.ConfinedTo`: what a call for a key may have changed;
- `confined_doWork`, `confined_perform`: what a call does is confined to that;
- `disk_perform_of_memory`: a store without files changes no entry at all.
-/

namespace Keyring

namespace Disk

variable {creates : Prop} {d e f : Disk} {directory name : String} {node : Node}

/-- One disk is another one after a call for a key, which may make the directories of the store if
it `creates` the key. -/
structure ConfinedTo (creates : Prop) (directory name : String) (d e : Disk) : Prop where
  current : e.current = d.current
  umask : e.umask = d.umask
  /-- Each directory is there as it was. -/
  kept : ∀ place mode, d.find? place = some (.directory mode) →
    e.find? place = some (.directory mode)
  /-- A new directory is one that the path of the store leads through. -/
  made : ∀ place mode, e.find? place = some (.directory mode) →
    d.find? place = some (.directory mode) ∨ creates ∧ d.Passes directory place
  /-- At other places than that of the key, nothing is changed but that directories are made. -/
  others : ∀ place, place ≠ d.placeOf directory name →
    e.find? place = d.find? place ∨
      d.find? place = none ∧ ∃ mode, e.find? place = some (.directory mode)

namespace ConfinedTo

@[refl] theorem refl (creates : Prop) (directory name : String) (d : Disk) :
    d.ConfinedTo creates directory name d :=
  ⟨rfl, rfl, fun _ _ h => h, fun _ _ h => .inl h, fun _ _ => .inl rfl⟩

@[trans] theorem trans (h : d.ConfinedTo creates directory name e)
    (h' : e.ConfinedTo creates directory name f) : d.ConfinedTo creates directory name f where
  current := h'.current.trans h.current
  umask := h'.umask.trans h.umask
  kept place mode hplace := h'.kept place mode (h.kept place mode hplace)
  made place mode hplace := by
    rcases h'.made place mode hplace with hthere | ⟨hcreates, hpasses⟩
    · exact h.made place mode hthere
    · rw [Passes, h.current] at hpasses
      exact .inr ⟨hcreates, hpasses⟩
  others place hplace := by
    have hplace' : place ≠ e.placeOf directory name := by rwa [placeOf, h.current]
    rcases h.others place hplace with hsame | ⟨hnone, mode, hmade⟩
    · rw [← hsame]
      exact h'.others place hplace'
    · exact .inr ⟨hnone, mode, h'.kept place mode hmade⟩

/-- All directories are kept. -/
theorem grows (h : d.ConfinedTo creates directory name e) : d.Grows e :=
  ⟨h.current, fun place mode hplace => ⟨mode, h.kept place mode hplace⟩⟩

theorem addsAlong (h : d.ConfinedTo creates directory name e) : d.AddsAlong e directory :=
  fun place mode hplace => (h.made place mode hplace).imp_right And.right

/-- The content of every file but the key's is the same. -/
theorem contentAt?_eq (h : d.ConfinedTo creates directory name e) {place : Location}
    (hplace : place ≠ d.placeOf directory name) : e.contentAt? place = d.contentAt? place := by
  unfold contentAt?
  rcases h.others place hplace with hsame | ⟨hnone, mode, hmade⟩
  · rw [hsame]
  · rw [hnone, hmade]

end ConfinedTo

/-- Making the directories of a store is confined to them. -/
theorem confined_makeDirectories (d : Disk) (hcreates : creates) (directory name : String)
    (mode : Nat) : d.ConfinedTo creates directory name (d.makeDirectories directory mode).1 := by
  have hmakes := makesAlong_makeDirectories d (.refl directory) mode
  refine ⟨hmakes.current, hmakes.umask, fun place m hplace => ?_, fun place m hplace => ?_,
    fun place _ => ?_⟩
  · rcases hmakes.nodes place with hsame | ⟨hnone, -⟩
    · rwa [hsame]
    · cases hnone.symm.trans hplace
  · exact (hmakes.addsAlong place m hplace).imp_right fun hpasses => ⟨hcreates, hpasses⟩
  · exact (hmakes.nodes place).imp_right fun ⟨hnone, _, hmade⟩ => ⟨hnone, hmade⟩

/-- A change at the place of a key is confined to it if it neither takes a directory away nor brings
one. -/
theorem confined_of_find? (hcurrent : e.current = d.current) (humask : e.umask = d.umask)
    {after : Option Node} (hfind : ∀ place,
      e.find? place = if place = d.placeOf directory name then after else d.find? place)
    (hbefore : (d.find? (d.placeOf directory name)).any Node.isDirectory = false)
    (hafter : after.any Node.isDirectory = false) : d.ConfinedTo creates directory name e where
  current := hcurrent
  umask := humask
  kept place mode hplace := by
    rw [hfind]
    split
    case isTrue heq =>
      rw [← heq, hplace] at hbefore
      cases hbefore
    case isFalse => exact hplace
  made place mode hplace := by
    rw [hfind] at hplace
    split at hplace
    case isTrue =>
      rw [hplace] at hafter
      cases hafter
    case isFalse => exact .inl hplace
  others place hplace := by
    rw [hfind, if_neg hplace]
    exact .inl rfl

variable (hvalid : KeyName.Valid name)

include hvalid

theorem confined_createNew {mode : Nat} (h : d.createNew (Path.join directory name) mode = .ok e) :
    d.ConfinedTo creates directory name e := by
  obtain ⟨-, hnone, rfl⟩ := eq_put_of_createNew hvalid h
  exact confined_of_find? rfl rfl (find?_put (by simp [placeOf]) d _) (by rw [hnone]; rfl) rfl

theorem confined_writeAt {offset : Nat} {bytes : List UInt8}
    (h : d.writeAt (Path.join directory name) offset bytes = .ok e) :
    d.ConfinedTo creates directory name e := by
  obtain ⟨m, content, hfile, rfl⟩ := eq_put_of_writeAt hvalid h
  exact confined_of_find? rfl rfl (find?_put (by simp [placeOf]) d _) (by rw [hfile]; rfl) rfl

theorem confined_remove (h : d.remove (Path.join directory name) = .ok e) :
    d.ConfinedTo creates directory name e := by
  obtain ⟨m, content, hfile, rfl⟩ := eq_erase_of_remove hvalid h
  exact confined_of_find? rfl rfl (find?_erase (by simp [placeOf]) d) (by rw [hfile]; rfl) rfl

end Disk

namespace Store

variable {s : Store} {name directory : String} {call : Call} {w : Work} {creates : Prop}

/-- What some work under the lock does to the disk is confined to the file of the key and, where the
directory is made, to that. -/
theorem confined_doWork (hfiles : s.settings.backend = .files directory)
    (hvalid : KeyName.Valid name) (hchanges : w.changesDisk = true)
    (hcreates : ∀ secret record, w = .makeDirectory secret record → creates) (reply : Reply) :
    s.disk.ConfinedTo creates directory name (s.doWork name reply w).1.disk := by
  have hsame : s.disk.ConfinedTo creates directory name s.disk := .refl creates directory name _
  -- a call to the file system that fails changes nothing, but directories that were made stay
  cases w with
  | makeDirectory secret record =>
    simp only [doWork, hfiles]
    unfold makeDirectory
    split
    · exact hsame
    · have hmakes := Disk.confined_makeDirectories s.disk (hcreates secret record rfl) directory
        name 0o700
      split
      case h_1 hmade | h_2 hmade =>
        rw [hmade] at hmakes
        exact hmakes
  | createFile secret record =>
    simp only [doWork, hfiles]
    unfold createFile path
    split
    · exact hsame
    · split
      case h_1 e he => exact Disk.confined_createNew hvalid he
      case h_2 | h_3 => exact hsame
  | write secret record written =>
    simp only [doWork, hfiles]
    unfold write path
    split
    · exact hsame
    · split
      case h_1 => exact hsame
      case h_2 e he => exact Disk.confined_writeAt hvalid he
  | rollBack fault =>
    simp only [doWork, hfiles]
    unfold rollBack path
    split
    · exact hsame
    · split
      case h_1 => exact hsame
      case h_2 e he => exact Disk.confined_remove hvalid he
  | remove =>
    simp only [doWork]
    unfold remove path
    simp only [hfiles]
    cases reply.device with
    | refuse fault => exact hsame
    | accept limit =>
      simp only
      split
      case h_1 e he => exact Disk.confined_remove hvalid he
      case h_2 | h_3 => exact hsame
  | _ => cases hchanges

/-- What a call does to the disk is confined to the file of its key and, if it creates the key, to
the directories of the store. -/
theorem confined_perform (id : Nat) (hfiles : s.settings.backend = .files directory)
    (hfits : call.stage.Fits s.settings call.name call.operation) (reply : Reply) :
    s.disk.ConfinedTo (∃ secret, call.operation = .create secret) directory call.name
      (s.perform id call reply).1.disk := by
  by_cases hchanges : ∃ w, call.stage = .work w ∧ w.changesDisk = true
  case pos =>
    obtain ⟨w, hstage, hchanges⟩ := hchanges
    rw [hstage] at hfits
    obtain ⟨hvalid, hwork⟩ := hfits
    simp only [perform, hstage]
    refine confined_doWork hfiles hvalid hchanges (fun secret record hw => ?_) reply
    subst hw
    exact ⟨secret, hwork.1⟩
  case neg =>
    rw [disk_perform fun w hw => by simpa [hw] using hchanges]

/-- A store without files leaves the disk as it is. -/
theorem disk_perform_of_memory (id : Nat) (hmemory : s.settings.backend = .memory)
    (hfits : call.stage.Fits s.settings call.name call.operation) (reply : Reply) :
    (s.perform id call reply).1.disk = s.disk := by
  by_cases hchanges : ∃ w, call.stage = .work w ∧ w.changesDisk = true
  case pos =>
    obtain ⟨w, hstage, hchanges⟩ := hchanges
    rw [hstage] at hfits
    simp only [perform, hstage]
    -- only the removal of a record fits, and it is one of the table
    cases w with
    | remove =>
      simp only [doWork]
      unfold remove
      simp only [hmemory]
    | makeDirectory | createFile | write | rollBack => exact absurd hmemory hfits.2.2
    | _ => cases hchanges
  case neg => exact disk_perform fun w hw => by simpa [hw] using hchanges

end Store

end Keyring
