import Keyring.Proofs.Disk.Files
import Keyring.Proofs.Store.OwnFile

/-!
# Files that are not the key's

The directory of a store may hold more than its keys, and a disk holds more than that directory. A
call makes directories and changes the file of its key; every other file stays as it is, and is read
as before.

- `KeepsFiles`, `keepsFiles_step`: what a step of a call does to files that are not its key's.
-/

namespace Keyring.Store

/-- Every file is as before, but perhaps that of a key of a store of files. -/
structure KeepsFiles (s t : Store) (name : String) : Prop where
  grows : s.disk.Grows t.disk
  contents : ∀ location,
    (∀ directory, s.settings.backend = .files directory → KeyName.Valid name →
      location ≠ s.disk.placeOf directory name) →
    t.disk.contentAt? location = s.disk.contentAt? location

variable {s t u : Store} {id : Nat} {name directory : String} {call : Call}

theorem keepsFiles_of_eq (h : t.disk = s.disk) : s.KeepsFiles t name :=
  ⟨by rw [h], fun location _ => by rw [h]⟩

theorem KeepsFiles.trans (h : s.KeepsFiles t name) (h' : t.KeepsFiles u name)
    (hsettings : t.settings = s.settings) : s.KeepsFiles u name where
  grows := h.grows.trans h'.grows
  contents location hlocation := by
    have hplace (directory : String) (hfiles : t.settings.backend = .files directory)
        (hvalid : KeyName.Valid name) : location ≠ t.disk.placeOf directory name := by
      rw [hsettings] at hfiles
      rw [Disk.placeOf, h.grows.current]
      exact hlocation directory hfiles hvalid
    exact (h'.contents location hplace).trans (h.contents location hlocation)

/-- What a call does keeps all files but that of its key. -/
theorem keepsFiles_perform (id : Nat)
    (hfits : call.stage.Fits s.settings call.name call.operation) (reply : Reply) :
    s.KeepsFiles (s.perform id call reply).1 call.name := by
  cases hbackend : s.settings.backend with
  | memory => exact keepsFiles_of_eq (disk_perform_of_memory id hbackend hfits reply)
  | files directory =>
    by_cases hvalid : KeyName.Valid call.name
    case pos =>
      have hconfined := confined_perform id hbackend hfits reply
      exact ⟨hconfined.grows, fun location hlocation =>
        hconfined.contentAt?_eq (hlocation directory hbackend hvalid)⟩
    case neg =>
      -- under such a name, no work is done
      refine keepsFiles_of_eq (disk_perform fun w hw => ?_)
      rw [hw] at hfits
      exact absurd hfits.1 hvalid

/-- A step of a call keeps all files but that of its key. -/
theorem keepsFiles_step (hcall : s.calls.find? id = some call)
    (hfits : call.stage.Fits s.settings call.name call.operation) (reply : Reply) :
    s.KeepsFiles (s.step id reply) call.name := by
  have hperform := keepsFiles_perform id hfits reply
  have hdisk : (s.step id reply).disk = (s.perform id call reply).1.disk := by rw [step, hcall]
  refine ⟨?_, ?_⟩
  · rw [hdisk]
    exact hperform.grows
  · rw [hdisk]
    exact hperform.contents

end Keyring.Store
