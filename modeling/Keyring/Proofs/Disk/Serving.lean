import Keyring.Proofs.Disk.Contents

/-!
# Directories that serve a store

What a store relies on when the file system does not fail: the path of each key leads to an entry of
the directory, and no directory stands there. A directory that is missing can be made first.

- `Serves`, `Hosts`: the directory is there, or it can be made;
- `Serves.createNew_of_none`, `Serves.createNew_of_some`, `Serves.writeAt_of_some`,
  `Hosts.read_of_none`, `Hosts.remove_of_some`, `Hosts.remove_of_none`: what becomes of each call to
  the file system is decided by whether the key has a file;
- `Serves.createNew`, `Serves.writeAt`, `Hosts.remove`: each call leaves the directory as it should
  be;
- `serves_of_child`: a directory below the current one serves.
-/

namespace Keyring

namespace Disk

/-- The directory of a store is there, and each key has an entry of its own in it. -/
structure Serves (d : Disk) (directory : String) : Prop where
  /-- The directory is there. -/
  isThere : directory = "" ∨ d.isDirectory directory = true
  /-- The path of each key leads somewhere. -/
  reaches : ∀ name, KeyName.Valid name → ∃ target, d.locate (Path.join directory name) = .ok target
  /-- No directory stands where the file of a key belongs. -/
  free : ∀ name mode, KeyName.Valid name →
    d.find? (d.placeOf directory name) ≠ some (.directory mode)

/-- The directory of a store serves it, or is missing and can be made. -/
inductive Hosts (d : Disk) (directory : String) : Prop where
  | there (h : d.Serves directory)
  | missing {e : Disk}
    (hnone : ∀ name, KeyName.Valid name →
      d.locate (Path.join directory name) = .error .notFound ∧
        d.contentAt? (d.placeOf directory name) = none)
    (hmade : d.makeDirectories directory 0o700 = (e, .ok ())) (h : e.Serves directory)

variable {d e : Disk} {directory name path : String} {location : Location} {mode offset : Nat}
  {content bytes : List UInt8}

/-! ### The directory -/

/-- A directory that is there need not be made. -/
theorem ensureDirectory_of_isDirectory (h : d.isDirectory path = true) (mode : Nat) :
    d.ensureDirectory path mode = .ok d := by
  have hfault : ∃ fault, d.makeDirectory path mode = .error fault := by
    unfold isDirectory status at h
    unfold makeDirectory
    cases hlocate : d.locate path with
    | error fault => exact ⟨fault, rfl⟩
    | ok target =>
      rw [hlocate] at h
      cases target with
      | directory location => exact ⟨_, rfl⟩
      | entry parent part slash =>
        simp only [Target.location] at h ⊢
        cases hnode : d.find? (parent ++ [part]) with
        | none =>
          rw [hnode] at h
          cases h
        | some node => exact ⟨_, rfl⟩
  obtain ⟨fault, hfault⟩ := hfault
  rw [ensureDirectory, hfault]
  exact if_pos h

theorem Serves.makeDirectories (h : d.Serves directory) (mode : Nat) :
    d.makeDirectories directory mode = (d, .ok ()) := by
  unfold Disk.makeDirectories makeDirectoriesWithin
  split
  case isTrue => rfl
  case isFalse hne =>
    rw [ensureDirectory_of_isDirectory (h.isThere.resolve_left hne)]

/-- Making the directory gives one that serves. -/
theorem Hosts.exists_serves (h : d.Hosts directory) :
    ∃ e, d.makeDirectories directory 0o700 = (e, .ok ()) ∧ e.Serves directory := by
  cases h with
  | there h => exact ⟨d, h.makeDirectories _, h⟩
  | missing _ hmade h => exact ⟨_, hmade, h⟩

/-! ### What becomes of each call -/

/-- Where the path of a key leads. -/
theorem Serves.locate_eq (h : d.Serves directory) (hvalid : KeyName.Valid name) :
    ∃ parent, d.locate (Path.join directory name) = .ok (.entry parent name false) ∧
      parent ++ [name] = d.placeOf directory name := by
  obtain ⟨target, htarget⟩ := h.reaches name hvalid
  obtain ⟨parent, rfl, hplace⟩ := eq_of_locate_join hvalid htarget
  exact ⟨parent, htarget, hplace⟩

/-- Without a file, nothing stands at the place of a key. -/
theorem Serves.find?_of_none (h : d.Serves directory) (hvalid : KeyName.Valid name)
    (hnone : d.contentAt? (d.placeOf directory name) = none) :
    d.find? (d.placeOf directory name) = none := by
  unfold contentAt? at hnone
  cases hnode : d.find? (d.placeOf directory name) with
  | none => rfl
  | some node =>
    cases node with
    | directory mode => exact absurd hnode (h.free name mode hvalid)
    | file mode content =>
      rw [hnode] at hnone
      cases hnone

theorem exists_file_of_contentAt? (h : d.contentAt? location = some content) :
    ∃ mode, d.find? location = some (.file mode content) := by
  unfold contentAt? at h
  split at h
  case h_1 mode content hnode => exact ⟨mode, by rw [hnode, Option.some.inj h]⟩
  case h_2 => cases h

theorem Serves.createNew_of_none (h : d.Serves directory) (hvalid : KeyName.Valid name)
    (hnone : d.contentAt? (d.placeOf directory name) = none) (mode : Nat) :
    ∃ e, d.createNew (Path.join directory name) mode = .ok e := by
  obtain ⟨parent, hlocate, hplace⟩ := h.locate_eq hvalid
  have hfree := h.find?_of_none hvalid hnone
  rw [← hplace] at hfree
  exact ⟨_, by simp only [Disk.createNew, hlocate, hfree]; rfl⟩

theorem Serves.createNew_of_some (h : d.Serves directory) (hvalid : KeyName.Valid name)
    (hsome : d.contentAt? (d.placeOf directory name) = some content) (mode : Nat) :
    d.createNew (Path.join directory name) mode = .error .alreadyExists := by
  obtain ⟨parent, hlocate, hplace⟩ := h.locate_eq hvalid
  obtain ⟨m, hfile⟩ := exists_file_of_contentAt? hsome
  rw [← hplace] at hfile
  simp only [Disk.createNew, hlocate, hfile]

theorem Serves.writeAt_of_some (h : d.Serves directory) (hvalid : KeyName.Valid name)
    (hsome : d.contentAt? (d.placeOf directory name) = some content) (offset : Nat)
    (bytes : List UInt8) : ∃ e, d.writeAt (Path.join directory name) offset bytes = .ok e := by
  obtain ⟨parent, hlocate, hplace⟩ := h.locate_eq hvalid
  obtain ⟨m, hfile⟩ := exists_file_of_contentAt? hsome
  rw [← hplace] at hfile
  exact ⟨_, by simp only [Disk.writeAt, hlocate, Target.location, hfile]; rfl⟩

theorem Hosts.read_of_none (h : d.Hosts directory) (hvalid : KeyName.Valid name)
    (hnone : d.contentAt? (d.placeOf directory name) = none) :
    d.read (Path.join directory name) = .error .notFound := by
  unfold read status
  cases h with
  | there h =>
    obtain ⟨parent, hlocate, hplace⟩ := h.locate_eq hvalid
    simp only [hlocate, Target.location, hplace, h.find?_of_none hvalid hnone]
  | missing hmissing => rw [(hmissing name hvalid).1]

/-- A file is found where the path of its key leads. -/
theorem Hosts.serves_of_some (h : d.Hosts directory) (hvalid : KeyName.Valid name)
    (hsome : d.contentAt? (d.placeOf directory name) = some content) : d.Serves directory := by
  cases h with
  | there h => exact h
  | missing hmissing =>
    rw [(hmissing name hvalid).2] at hsome
    cases hsome

/-- Where the path of a key leads somewhere, the directory serves. -/
theorem Hosts.serves_of_locate (h : d.Hosts directory) (hvalid : KeyName.Valid name)
    {target : Target} (hlocate : d.locate (Path.join directory name) = .ok target) :
    d.Serves directory := by
  cases h with
  | there h => exact h
  | missing hmissing => cases hlocate.symm.trans (hmissing name hvalid).1

theorem Hosts.read_of_some (h : d.Hosts directory) (hvalid : KeyName.Valid name)
    (hsome : d.contentAt? (d.placeOf directory name) = some content) :
    d.read (Path.join directory name) = .ok content :=
  (read_eq_ok_iff hvalid).2 ⟨(h.serves_of_some hvalid hsome).reaches name hvalid, hsome⟩

theorem Hosts.remove_of_some (h : d.Hosts directory) (hvalid : KeyName.Valid name)
    (hsome : d.contentAt? (d.placeOf directory name) = some content) :
    ∃ e, d.remove (Path.join directory name) = .ok e := by
  obtain ⟨parent, hlocate, hplace⟩ := (h.serves_of_some hvalid hsome).locate_eq hvalid
  obtain ⟨m, hfile⟩ := exists_file_of_contentAt? hsome
  rw [← hplace] at hfile
  exact ⟨_, by simp only [Disk.remove, hlocate, hfile]; rfl⟩

theorem Hosts.remove_of_none (h : d.Hosts directory) (hvalid : KeyName.Valid name)
    (hnone : d.contentAt? (d.placeOf directory name) = none) :
    d.remove (Path.join directory name) = .error .notFound := by
  unfold Disk.remove
  cases h with
  | there h =>
    obtain ⟨parent, hlocate, hplace⟩ := h.locate_eq hvalid
    have hfree := h.find?_of_none hvalid hnone
    rw [← hplace] at hfree
    simp only [hlocate, hfree]
  | missing hmissing => rw [(hmissing name hvalid).1]

/-! ### The directory after each call -/

/-- A disk with the directories of another, and no others, serves as that one does. -/
theorem Serves.of_grows (h : d.Serves directory) (hgrows : d.Grows e)
    (hback : ∀ location mode, e.find? location = some (.directory mode) →
      d.find? location = some (.directory mode)) : e.Serves directory where
  isThere := by
    refine h.isThere.imp_right fun hthere => ?_
    unfold isDirectory status at hthere ⊢
    cases hlocate : d.locate directory with
    | error fault =>
      rw [hlocate] at hthere
      cases hthere
    | ok target =>
      rw [hlocate] at hthere
      rw [hgrows.locate hlocate]
      simp only at hthere ⊢
      cases hnode : d.find? target.location with
      | none =>
        rw [hnode] at hthere
        cases target <;> cases hthere
      | some node =>
        cases node with
        | file m content =>
          rw [hnode] at hthere
          cases target with
          | directory location => cases hthere
          | entry parent part slash => cases slash <;> cases hthere
        | directory m =>
          obtain ⟨m', hnode'⟩ := hgrows.directories _ m hnode
          rw [hnode']
          cases target with
          | directory location => rfl
          | entry parent part slash => cases slash <;> rfl
  reaches name hvalid := by
    obtain ⟨target, htarget⟩ := h.reaches name hvalid
    exact ⟨target, hgrows.locate htarget⟩
  free name mode hvalid hdirectory := by
    have hplace : e.placeOf directory name = d.placeOf directory name := by
      rw [placeOf, hgrows.current, placeOf]
    rw [hplace] at hdirectory
    exact h.free name mode hvalid (hback _ _ hdirectory)

theorem Serves.createNew (h : d.Serves directory) (hvalid : KeyName.Valid name)
    (he : d.createNew (Path.join directory name) mode = .ok e) : e.Serves directory :=
  h.of_grows (becomes_createNew hvalid he).2.2.toGrows fun _ _ => directory_of_createNew hvalid he

theorem Serves.writeAt (h : d.Serves directory) (hvalid : KeyName.Valid name)
    (he : d.writeAt (Path.join directory name) offset bytes = .ok e) : e.Serves directory := by
  obtain ⟨content, -, hbecomes⟩ := becomes_writeAt hvalid he
  exact h.of_grows hbecomes.toGrows fun _ _ => directory_of_writeAt hvalid he

/-- After a removal the directory serves, since the file that was removed was found. -/
theorem Hosts.remove (h : d.Hosts directory) (hvalid : KeyName.Valid name)
    (he : d.remove (Path.join directory name) = .ok e) : e.Serves directory := by
  obtain ⟨⟨content, hcontent⟩, hbecomes⟩ := becomes_remove hvalid he
  have hserves := h.serves_of_some hvalid hcontent
  exact hserves.of_grows hbecomes.toGrows fun _ _ => directory_of_remove hvalid he

/-! ### A directory below the current one -/

end Disk

namespace Path

variable {directory name : String}

/-- The path of a key in the current directory is its name. -/
theorem join_empty (h : KeyName.Valid name) : join "" name = name := by
  apply String.toList_inj.1
  rw [toList_join h]
  rfl

theorem parts_of_valid (h : KeyName.Valid name) : parts name = [name] := by
  rw [← join_empty h, parts_join h, join_empty h]
  rfl

theorem isAbsolute_of_valid (h : KeyName.Valid name) : isAbsolute name = false := by
  rw [← join_empty h, isAbsolute_join h]
  rfl

/-- A path below another takes no more room than both and a slash. -/
theorem utf8ByteSize_join_le (directory name : String) :
    (join directory name).utf8ByteSize ≤ directory.utf8ByteSize + 1 + name.utf8ByteSize := by
  have hslash : "/".utf8ByteSize = 1 := rfl
  unfold join
  split
  · omega
  · split <;> simp only [String.utf8ByteSize_append, hslash] <;> omega

/-- The path of a key below a directory holds no NUL if that of the directory does not. -/
theorem nul_notMem_join (hdirectory : '\x00' ∉ directory.toList) (h : KeyName.Valid name) :
    '\x00' ∉ (join directory name).toList := by
  have hname : '\x00' ∉ name.toList := fun hmem =>
    Bool.noConfusion ((KeyName.valid_iff.1 h).2.2.2.2 _ hmem)
  rw [toList_join h]
  split <;> simp [hdirectory, hname]

theorem join_ne_empty (h : KeyName.Valid name) : join directory name ≠ "" := by
  rw [Ne, ← String.toList_eq_nil_iff, toList_join h]
  simp [KeyName.toList_ne_nil_of_valid h]

end Path

namespace Disk

variable {d : Disk} {directory path : String} {mode : Nat}

/-- Where a path leads that is neither empty nor too long and holds no NUL. -/
theorem locate_eq_walk (hnul : '\x00' ∉ path.toList) (hne : path ≠ "")
    (hsize : path.utf8ByteSize < maxPathSize) (d : Disk) :
    d.locate path = d.walk (if Path.isAbsolute path then [] else d.current)
      (Path.endsInSlash path) (Path.parts path) := by
  unfold locate
  rw [if_neg (by simpa using hnul), if_neg hne, if_neg (Nat.not_le.2 hsize)]

/-- The last part of a path is not entered, whatever stands there. -/
theorem walk_of_valid {name : String} (h : KeyName.Valid name) (location : Location)
    (slash : Bool) : d.walk location slash [name] = .ok (.entry location name slash) := by
  obtain ⟨-, hsize, hdot, hdots, -⟩ := KeyName.valid_iff.1 h
  have hshort : ¬maxPartSize < name.utf8ByteSize := Nat.not_lt.2 hsize
  rw [walk, if_neg (by simp [hdot, hdots]), if_neg hshort]

/-- A directory below the current one serves if none stands below it. -/
theorem serves_of_child (hdirectory : KeyName.Valid directory)
    (hthere : d.find? (d.current ++ [directory]) = some (.directory mode))
    (hfree : ∀ name mode, d.find? (d.current ++ [directory, name]) ≠ some (.directory mode)) :
    d.Serves directory := by
  obtain ⟨hne, hsize, hdot, hdots, -⟩ := KeyName.valid_iff.1 hdirectory
  have hshort : ¬maxPartSize < directory.utf8ByteSize := Nat.not_lt.2 hsize
  have hrelative := Path.isAbsolute_of_valid hdirectory
  have hparts := Path.parts_of_valid hdirectory
  have hmax : KeyName.maxSize = 255 := rfl
  have hnul : '\x00' ∉ directory.toList := by
    rw [← Path.join_empty hdirectory]
    exact Path.nul_notMem_join (by simp) hdirectory
  refine ⟨.inr ?_, fun name hvalid => ?_, fun name mode hvalid => ?_⟩
  case refine_1 =>
    have hsmall : directory.utf8ByteSize < maxPathSize := by
      rw [maxPathSize]
      omega
    have hlocate := locate_eq_walk hnul hne hsmall d
    rw [hrelative, hparts, walk_of_valid hdirectory] at hlocate
    unfold isDirectory status
    rw [hlocate]
    simp only [Bool.false_eq_true, if_false, Target.location, hthere]
    rfl
  case refine_2 =>
    have hsizeName := (KeyName.valid_iff.1 hvalid).2.1
    have hsmall : (Path.join directory name).utf8ByteSize < maxPathSize := by
      have hle := Path.utf8ByteSize_join_le directory name
      rw [maxPathSize]
      omega
    have henter : d.enter d.current directory = .ok (d.current ++ [directory]) := by
      simp only [enter, hdot, hdots, hshort, hthere, if_false]
    refine ⟨.entry (d.current ++ [directory]) name false, ?_⟩
    rw [locate_eq_walk (Path.nul_notMem_join hnul hvalid) (Path.join_ne_empty hvalid) hsmall,
      Path.isAbsolute_join hvalid, hrelative, Path.parts_join hvalid, hparts,
      Path.endsInSlash_join hvalid, List.singleton_append, walk.eq_3 _ _ _ _ _ (by simp)]
    simp only [Bool.false_eq_true, if_false, henter]
    exact walk_of_valid hvalid _ _
  case refine_3 =>
    have hplace : d.placeOf directory name = d.current ++ [directory, name] := by
      simp [placeOf, hrelative, hparts, descend, hdot, hdots]
    rw [hplace]
    exact hfree name mode

end Disk

end Keyring
