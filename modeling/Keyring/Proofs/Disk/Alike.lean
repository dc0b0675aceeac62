import Keyring.Proofs.Disk.Contents
import Keyring.Proofs.Secret.Alike

/-!
# Disks that differ in contents

Whether a call to the file system succeeds does not depend on what the files hold. On two disks with
the same directories and files, all calls end alike, and leave the same directories and files.

- `Node.Alike`, `Disk.Alike`: disks that differ in the contents of files only, which are related;
- `Disk.sameResult_makeDirectoriesWithin`: directories are made alike if each of them is;
- `Disk.Alike.locate_eq`: a path leads to the same place on both;
- `Disk.Alike.makeDirectories`, `Disk.Alike.createNew`, `Disk.Alike.writeAt`, `Disk.Alike.remove`:
  the calls that change the disks keep them alike;
- `Disk.Alike.read`: what is read is related.
-/

namespace Keyring

/-- Two directories with the same permission bits, or two files with the same permission bits and
contents that are related. -/
inductive Node.Alike (R : List UInt8 → List UInt8 → Prop) : Node → Node → Prop where
  | directory (mode : Nat) : Alike R (.directory mode) (.directory mode)
  | file (mode : Nat) {content content' : List UInt8} (h : R content content') :
    Alike R (.file mode content) (.file mode content')

/-- Two disks with the same entries, but for the contents of files, which are related. -/
structure Disk.Alike (R : List UInt8 → List UInt8 → Prop) (d e : Disk) : Prop where
  current : d.current = e.current
  umask : d.umask = e.umask
  nodes : ∀ location, Option.Rel (Node.Alike R) (d.nodes.find? location) (e.nodes.find? location)

/-! ### Directories on two disks -/

section

variable {R : Disk → Disk → Prop} {d e : Disk} {path : String} {mode : Nat}

/-- A directory is made sure of alike if it is made alike and found alike. -/
theorem Disk.sameResult_ensureDirectory (h : R d e)
    (hmade : SameResult R (d.makeDirectory path mode) (e.makeDirectory path mode))
    (hfound : d.isDirectory path = e.isDirectory path) :
    SameResult R (d.ensureDirectory path mode) (e.ensureDirectory path mode) := by
  unfold Disk.ensureDirectory
  rw [hfound]
  generalize d.makeDirectory path mode = made at *
  generalize e.makeDirectory path mode = made' at *
  cases hmade with
  | ok hmade => exact .ok hmade
  | error fault =>
    dsimp only
    split
    · exact .ok h
    · exact .error fault

/-- A directory and those above it are made alike if each of them is. -/
theorem Disk.sameResult_makeDirectoriesWithin {P : String → Prop}
    (hparent : ∀ {path parent}, P path → Path.parent? path = some parent → P parent)
    (hensure : ∀ {d e path}, P path → R d e →
      SameResult R (d.ensureDirectory path mode) (e.ensureDirectory path mode))
    (hpath : P path) (h : R d e) (fuel : Nat) :
    R (makeDirectoriesWithin path mode fuel d).1 (makeDirectoriesWithin path mode fuel e).1 ∧
      (makeDirectoriesWithin path mode fuel d).2 = (makeDirectoriesWithin path mode fuel e).2 := by
  induction fuel generalizing path d e with
  | zero => exact ⟨h, rfl⟩
  | succ fuel ih =>
    unfold makeDirectoriesWithin
    by_cases hempty : path = ""
    · rw [if_pos hempty, if_pos hempty]
      exact ⟨h, rfl⟩
    rw [if_neg hempty, if_neg hempty]
    have hmade := hensure hpath h
    generalize d.ensureDirectory path mode = made at *
    generalize e.ensureDirectory path mode = made' at *
    cases hmade with
    | ok hmade => exact ⟨hmade, rfl⟩
    | error fault =>
      cases fault with
      | notFound =>
        cases habove : Path.parent? path with
        | none => exact ⟨h, rfl⟩
        | some parent =>
          -- the directory above is made first, and this one if that succeeds
          obtain ⟨hdisks, hresult⟩ := ih (hparent hpath habove) h
          dsimp only
          generalize makeDirectoriesWithin parent mode fuel d = first at *
          generalize makeDirectoriesWithin parent mode fuel e = first' at *
          obtain ⟨d, result⟩ := first
          obtain ⟨e, result'⟩ := first'
          obtain rfl : result = result' := hresult
          cases result with
          | error fault => exact ⟨hdisks, rfl⟩
          | ok =>
            have hagain := hensure hpath hdisks
            dsimp only
            generalize d.ensureDirectory path mode = made at *
            generalize e.ensureDirectory path mode = made' at *
            cases hagain with
            | ok hmade => exact ⟨hmade, rfl⟩
            | error fault => exact ⟨hdisks, rfl⟩
      | _ => exact ⟨h, rfl⟩

end

namespace Disk.Alike

variable {R : List UInt8 → List UInt8 → Prop} {d e : Disk} {path : String}

theorem refl (h : ∀ content, R content content) (d : Disk) : d.Alike R d where
  current := rfl
  umask := rfl
  nodes location := by
    cases d.nodes.find? location with
    | none => exact .none
    | some node =>
      cases node with
      | directory mode => exact .some (.directory mode)
      | file mode content => exact .some (.file mode (h content))

theorem find? (h : d.Alike R e) (location : Location) :
    Option.Rel (Node.Alike R) (d.find? location) (e.find? location) := by
  unfold Disk.find?
  split
  · exact .some (.directory _)
  · exact h.nodes location

theorem put (h : d.Alike R e) (location : Location) {node node' : Node}
    (hnode : node.Alike R node') : (d.put location node).Alike R (e.put location node') where
  current := h.current
  umask := h.umask
  nodes other := by
    simp only [Disk.put, FiniteMap.find?_insert]
    split
    · exact .some hnode
    · exact h.nodes other

theorem erase (h : d.Alike R e) (location : Location) :
    (d.erase location).Alike R (e.erase location) where
  current := h.current
  umask := h.umask
  nodes other := by
    simp only [Disk.erase, FiniteMap.find?_erase]
    split
    · exact .none
    · exact h.nodes other

theorem newMode_eq (h : d.Alike R e) (mode : Nat) : d.newMode mode = e.newMode mode := by
  rw [newMode, newMode, h.umask]

/-! ### Paths -/

theorem enter_eq (h : d.Alike R e) (location : Location) (part : String) :
    d.enter location part = e.enter location part := by
  have hnode := h.find? (location ++ [part])
  unfold enter
  generalize d.find? (location ++ [part]) = node at *
  generalize e.find? (location ++ [part]) = node' at *
  cases hnode with
  | none => rfl
  | some hnode => cases hnode <;> rfl

theorem walk_eq (h : d.Alike R e) (location : Location) (slash : Bool) (parts : List String) :
    d.walk location slash parts = e.walk location slash parts := by
  induction parts generalizing location with
  | nil => rfl
  | cons part parts ih =>
    cases parts with
    | nil => simp only [walk, h.enter_eq]
    | cons next parts =>
      simp only [walk, h.enter_eq]
      cases e.enter location part with
      | error fault => rfl
      | ok location => exact ih location

/-- A path leads to the same place. -/
theorem locate_eq (h : d.Alike R e) (path : String) : d.locate path = e.locate path := by
  unfold locate
  rw [h.current, h.walk_eq]

theorem status (h : d.Alike R e) (path : String) :
    SameResult (Node.Alike R) (d.status path) (e.status path) := by
  unfold Disk.status
  rw [h.locate_eq]
  cases e.locate path with
  | error fault => exact .error fault
  | ok target =>
    have hnode := h.find? target.location
    dsimp only
    generalize d.find? target.location = node at *
    generalize e.find? target.location = node' at *
    cases hnode with
    | none => exact .error _
    | some hnode =>
      cases hnode with
      | directory mode => cases target <;> exact .ok (.directory mode)
      | file mode hcontent =>
        cases target with
        | directory location => exact .ok (.file mode hcontent)
        | entry parent name slash =>
          cases slash with
          | true => exact .error _
          | false => exact .ok (.file mode hcontent)

theorem isDirectory_eq (h : d.Alike R e) (path : String) :
    d.isDirectory path = e.isDirectory path := by
  have hstatus := h.status path
  unfold isDirectory
  generalize d.status path = node at *
  generalize e.status path = node' at *
  cases hstatus with
  | error fault => rfl
  | ok hnode => cases hnode <;> rfl

/-! ### Directories -/

theorem makeDirectory (h : d.Alike R e) (path : String) (mode : Nat) :
    SameResult (Disk.Alike R) (d.makeDirectory path mode) (e.makeDirectory path mode) := by
  unfold Disk.makeDirectory
  rw [h.locate_eq]
  cases e.locate path with
  | error fault => exact .error fault
  | ok target =>
    cases target with
    | directory location => exact .error _
    | entry parent name slash =>
      have hnode := h.find? (parent ++ [name])
      dsimp only
      generalize d.find? (parent ++ [name]) = node at *
      generalize e.find? (parent ++ [name]) = node' at *
      cases hnode with
      | none =>
        rw [h.newMode_eq]
        exact .ok (h.put _ (.directory _))
      | some hnode => exact .error _

theorem ensureDirectory (h : d.Alike R e) (path : String) (mode : Nat) :
    SameResult (Disk.Alike R) (d.ensureDirectory path mode) (e.ensureDirectory path mode) :=
  sameResult_ensureDirectory h (h.makeDirectory path mode) (h.isDirectory_eq path)

/-- Making a directory and those above it ends alike, also when it fails half-way. -/
theorem makeDirectories (h : d.Alike R e) (path : String) (mode : Nat) :
    (d.makeDirectories path mode).1.Alike R (e.makeDirectories path mode).1 ∧
      (d.makeDirectories path mode).2 = (e.makeDirectories path mode).2 :=
  sameResult_makeDirectoriesWithin (P := fun _ => True) (fun _ _ => trivial)
    (fun _ h => h.ensureDirectory _ mode) trivial h _

/-! ### Files -/

theorem createNew (h : d.Alike R e) (hnil : R [] []) (path : String) (mode : Nat) :
    SameResult (Disk.Alike R) (d.createNew path mode) (e.createNew path mode) := by
  unfold Disk.createNew
  rw [h.locate_eq]
  cases e.locate path with
  | error fault => exact .error fault
  | ok target =>
    cases target with
    | directory location => exact .error _
    | entry parent name slash =>
      have hnode := h.find? (parent ++ [name])
      dsimp only
      generalize d.find? (parent ++ [name]) = node at *
      generalize e.find? (parent ++ [name]) = node' at *
      cases hnode with
      | none =>
        dsimp only
        split
        · exact .error _
        · rw [h.newMode_eq]
          exact .ok (h.put _ (.file _ hnil))
      | some hnode => exact .error _

/-- Writing keeps the disks alike if the contents that come of it are related. -/
theorem writeAt (h : d.Alike R e) (path : String) (offset offset' : Nat)
    (bytes bytes' : List UInt8)
    (hcontents : ∀ target content content', d.locate path = .ok target →
      d.contentAt? target.location = some content → e.contentAt? target.location = some content' →
      R (overwrite content offset bytes) (overwrite content' offset' bytes')) :
    SameResult (Disk.Alike R) (d.writeAt path offset bytes) (e.writeAt path offset' bytes') := by
  unfold Disk.writeAt
  rw [← h.locate_eq]
  cases hlocate : d.locate path with
  | error fault => exact .error fault
  | ok target =>
    have hnode := h.find? target.location
    have hnew := fun content content' => hcontents target content content' hlocate
    unfold contentAt? at hnew
    dsimp only
    generalize d.find? target.location = node at *
    generalize e.find? target.location = node' at *
    cases hnode with
    | none => exact .error _
    | some hnode =>
      cases hnode with
      | directory mode => exact .error _
      | file mode hcontent => exact .ok (h.put _ (.file mode (hnew _ _ rfl rfl)))

theorem remove (h : d.Alike R e) (path : String) :
    SameResult (Disk.Alike R) (d.remove path) (e.remove path) := by
  unfold Disk.remove
  rw [h.locate_eq]
  cases e.locate path with
  | error fault => exact .error fault
  | ok target =>
    cases target with
    | directory location => exact .error _
    | entry parent name slash =>
      have hnode := h.find? (parent ++ [name])
      dsimp only
      generalize d.find? (parent ++ [name]) = node at *
      generalize e.find? (parent ++ [name]) = node' at *
      cases hnode with
      | none => exact .error _
      | some hnode =>
        cases hnode with
        | directory mode => exact .error _
        | file mode hcontent =>
          dsimp only
          split
          · exact .error _
          · exact .ok (h.erase _)

theorem read (h : d.Alike R e) (path : String) : SameResult R (d.read path) (e.read path) := by
  have hstatus := h.status path
  unfold Disk.read
  generalize d.status path = node at *
  generalize e.status path = node' at *
  cases hstatus with
  | error fault => exact .error fault
  | ok hnode =>
    cases hnode with
    | directory mode => exact .error _
    | file mode hcontent => exact .ok hcontent

end Disk.Alike

end Keyring
