import Keyring.Proofs.Disk.Serving
import Keyring.Proofs.Store.Records

/-!
# Steps that do not fail

Where the device takes every call and the directory of a store serves it, what a step on a file does
depends on nothing but whether the key has a record.

- `Reply.Faithful`: an answer without failures;
- `Hosted`, `Ready`: the directory of a store of files can be used, or is there already;
- `perform_makeDirectory`, `perform_createFile_of_none`, `perform_createFile_of_some`,
  `perform_write`, `perform_remove`: what each step does then.
-/

namespace Keyring.Store

/-- An answer to a call at a stage that does not fail: the device takes the call and, if there is a
master key, a secret is encrypted to a readable ciphertext that opens to it, and a ciphertext is
decrypted if it opens. -/
structure Reply.Faithful (settings : Settings) (opens : Ciphertext → Option Secret) (reply : Reply)
    (stage : Stage) : Prop where
  accepts : ∃ limit, reply.device = .accept limit
  encrypts : settings.masterKey ≠ none → ∀ secret, stage = .encrypt secret →
    ∃ c, reply.encrypted = .ok c ∧ opens c = some secret ∧ c.Readable
  decrypts : settings.masterKey ≠ none → ∀ c, stage = .work (.decrypt c) →
    reply.decrypted.toOption = opens c

/-- The directory of a store of files can be used. -/
def Hosted (s : Store) : Prop :=
  ∀ directory, s.settings.backend = .files directory → s.disk.Hosts directory

/-- The directory of a store of files is there and can be used. -/
def Ready (s : Store) : Prop :=
  ∀ directory, s.settings.backend = .files directory → s.disk.Serves directory

variable {s : Store} {id : Nat} {name directory : String}
  {operation : Operation} {reply : Reply} {content : List UInt8} {limit : Nat}

theorem Ready.hosted (h : s.Ready) : s.Hosted := fun directory hfiles => .there (h directory hfiles)

/-- The path of a key that has a record leads somewhere. -/
theorem Hosted.reaches (h : s.Hosted) (hvalid : KeyName.Valid name)
    (hsome : s.record? name = some content) : s.Reaches name := by
  intro directory hfiles
  rw [record?, hfiles] at hsome
  exact ((h directory hfiles).serves_of_some hvalid hsome).reaches name hvalid

section

variable (hfiles : s.settings.backend = .files directory) (hdevice : reply.device = .accept limit)

include hfiles hdevice

theorem perform_makeDirectory (h : s.Hosted) (id : Nat) (name : String) (operation : Operation)
    (secret : Secret) (record : List UInt8) :
    ∃ e : Disk, e.Serves directory ∧
      s.perform id ⟨name, operation, .work (.makeDirectory secret record)⟩ reply =
        ({ s with disk := e }, .work (.createFile secret record)) := by
  obtain ⟨e, hmade, hserves⟩ := (h directory hfiles).exists_serves
  refine ⟨e, hserves, ?_⟩
  simp only [perform, doWork, hfiles]
  unfold makeDirectory
  simp only [hdevice, hmade]

variable (hvalid : KeyName.Valid name)

include hvalid

theorem perform_createFile_of_none (h : s.Ready) (hnone : s.record? name = none) (id : Nat)
    (operation : Operation) (secret : Secret) (record : List UInt8) :
    ∃ e : Disk, e.Serves directory ∧
      s.perform id ⟨name, operation, .work (.createFile secret record)⟩ reply =
        ({ s with disk := e }, .work (.write secret record 0)) := by
  have hserves := h directory hfiles
  rw [record?, hfiles] at hnone
  obtain ⟨e, he⟩ := hserves.createNew_of_none hvalid hnone 0o600
  refine ⟨e, hserves.createNew hvalid he, ?_⟩
  simp only [perform, doWork, hfiles]
  unfold createFile path
  simp only [hdevice, he]

theorem perform_createFile_of_some (h : s.Ready) (hsome : s.record? name = some content) (id : Nat)
    (operation : Operation) (secret : Secret) (record : List UInt8) :
    s.perform id ⟨name, operation, .work (.createFile secret record)⟩ reply =
      (s, .leave (.error .keyExists)) := by
  rw [record?, hfiles] at hsome
  have he := (h directory hfiles).createNew_of_some hvalid hsome 0o600
  simp only [perform, doWork, hfiles]
  unfold createFile path
  simp only [hdevice, he]

theorem perform_write (h : s.Ready) (hsome : s.record? name = some content) (id : Nat)
    (operation : Operation) (secret : Secret) (record : List UInt8) (written : Nat) :
    ∃ e : Disk, e.Serves directory ∧
      s.perform id ⟨name, operation, .work (.write secret record written)⟩ reply =
        ({ s with disk := e },
          if written + (limit + 1) < record.length then
            .work (.write secret record (written + (limit + 1)))
          else .work (.flush secret)) := by
  have hserves := h directory hfiles
  rw [record?, hfiles] at hsome
  obtain ⟨e, he⟩ := hserves.writeAt_of_some hvalid hsome written
    ((record.drop written).take (limit + 1))
  refine ⟨e, hserves.writeAt hvalid he, ?_⟩
  simp only [perform, doWork, hfiles]
  unfold write path
  simp only [hdevice, he]

end

variable (hvalid : KeyName.Valid name) (hdevice : reply.device = .accept limit) (h : s.Hosted)

include hvalid hdevice h

/-- Reading does not fail because of the file system. -/
theorem perform_read_ne_io (fault : FileFault) :
    (s.perform id ⟨name, operation, .work .read⟩ reply).2 ≠ .leave (.error (.io fault)) := by
  have hunderstand (record : List UInt8) :
      (s.understand name record).2 ≠ .leave (.error (.io fault)) := by
    unfold understand
    split <;> split <;> simp [Secret.Fault.toError]
  cases hbackend : s.settings.backend with
  | memory =>
    simp only [perform, doWork]
    unfold read
    simp only [hbackend]
    cases s.table.find? name with
    | none => simp
    | some record => exact hunderstand record
  | files directory =>
    have hhosts := h directory hbackend
    simp only [perform, doWork]
    unfold read path
    simp only [hbackend, hdevice]
    cases hcontent : s.disk.contentAt? (s.disk.placeOf directory name) with
    | none => simp [hhosts.read_of_none hvalid hcontent]
    | some content =>
      rw [hhosts.read_of_some hvalid hcontent]
      exact hunderstand _

/-- Removing a record leaves none, whether there was one or not. -/
theorem perform_remove (id : Nat) (operation : Operation) :
    ∃ t : Store, t.settings = s.settings ∧ t.Hosted ∧
      s.perform id ⟨name, operation, .work .remove⟩ reply = (t, .work (.purge (.ok .done))) := by
  cases hbackend : s.settings.backend with
  | memory =>
    refine ⟨{ s with table := s.table.erase name }, rfl, h, ?_⟩
    simp only [perform, doWork]
    unfold remove
    simp only [hbackend]
  | files directory =>
    have hhosts := h directory hbackend
    cases hcontent : s.disk.contentAt? (s.disk.placeOf directory name) with
    | none =>
      refine ⟨s, rfl, h, ?_⟩
      simp only [perform, doWork]
      unfold remove path
      simp only [hbackend, hdevice, hhosts.remove_of_none hvalid hcontent]
    | some content =>
      obtain ⟨e, he⟩ := hhosts.remove_of_some hvalid hcontent
      refine ⟨{ s with disk := e }, rfl, fun other hother => ?_, ?_⟩
      · obtain rfl : directory = other := by simpa using hbackend.symm.trans hother
        exact .there (hhosts.remove hvalid he)
      · simp only [perform, doWork]
        unfold remove path
        simp only [hbackend, hdevice, he]

/-- A removal that finds nothing says that there is no record. -/
theorem record?_of_missing (hmissing : s.removal name reply.device = .missing) :
    s.record? name = none := by
  cases hbackend : s.settings.backend with
  | memory => cases (removal_of_memory hbackend _ _).symm.trans hmissing
  | files directory =>
    rw [record?, hbackend]
    by_contra hsome
    obtain ⟨content, hcontent⟩ := Option.ne_none_iff_exists'.1 hsome
    obtain ⟨e, he⟩ := (h directory hbackend).remove_of_some hvalid hcontent
    rw [hdevice, removal_of_accept hbackend, path, he] at hmissing
    cases hmissing

end Keyring.Store
