import Keyring.Proofs.Disk.Place

/-!
# What calls to the file system do to the files of keys

A key store makes directories and creates, writes, reads and removes the files of its keys. None of
these calls loses a directory, and none touches a file but the one that it is about.

* `contentAt?` — the content of the file at a place;
* `Keeps` and `Becomes` — all files are as before, or all but one;
* `eq_put_of_createNew`, `eq_put_of_writeAt`, `eq_erase_of_remove` — the disk after each call;
* `keeps_makeDirectories`, `becomes_createNew`, `becomes_writeAt`, `becomes_remove` — what the
  calls do;
* `directory_of_createNew`, `directory_of_writeAt`, `directory_of_remove` — no call for a file adds
  a directory;
* `read_eq_ok_iff` — what is read.
-/

namespace Keyring.Disk

variable {d e : Disk} {directory name path : String} {location : Location} {mode : Nat}
  {content : List UInt8}

/-- The content of the file at a place, if there is one. -/
def contentAt? (d : Disk) (location : Location) : Option (List UInt8) :=
  match d.find? location with
  | some (.file _ content) => some content
  | _ => none

/-- All files are as before. -/
structure Keeps (d e : Disk) : Prop extends d.Grows e where
  /-- The content of each file is the same. -/
  contents : ∀ location, e.contentAt? location = d.contentAt? location

/-- All files are as before but one, which now has a content or is gone. -/
structure Becomes (d e : Disk) (location : Location) (content : Option (List UInt8)) : Prop
    extends d.Grows e where
  /-- The content of each other file is the same. -/
  contents : ∀ other, e.contentAt? other =
    if other = location then content else d.contentAt? other

@[refl] theorem Keeps.refl (d : Disk) : d.Keeps d := ⟨.refl d, fun _ => rfl⟩

@[trans] theorem Keeps.trans {f : Disk} (h : d.Keeps e) (h' : e.Keeps f) : d.Keeps f :=
  ⟨h.toGrows.trans h'.toGrows, fun location => (h'.contents location).trans (h.contents location)⟩

/-- What stands where after something was put at a place below the root. -/
theorem find?_put (hne : location ≠ []) (d : Disk) (node : Node) (other : Location) :
    (d.put location node).find? other = if other = location then some node else d.find? other := by
  unfold find? put
  by_cases heq : other = location
  · simp [heq, hne]
  · by_cases hroot : other = [] <;> simp [hroot, heq, Ne.symm hne]

/-- What stands where after something was removed from a place below the root. -/
theorem find?_erase (hne : location ≠ []) (d : Disk) (other : Location) :
    (d.erase location).find? other = if other = location then none else d.find? other := by
  unfold find? erase
  by_cases heq : other = location
  · simp [heq, hne]
  · by_cases hroot : other = [] <;> simp [hroot, heq, Ne.symm hne]

/-- Putting a file where no directory stands changes that file. -/
theorem becomes_put (hne : location ≠ []) (hold : ∀ m, d.find? location ≠ some (.directory m))
    (mode : Nat) (content : List UInt8) :
    d.Becomes (d.put location (.file mode content)) location (some content) where
  current := rfl
  directories other m hother := by
    -- the file takes the place of no directory
    have hdiff : other ≠ location := by
      rintro rfl
      exact hold m hother
    exact ⟨m, by rw [find?_put hne, if_neg hdiff, hother]⟩
  contents other := by
    unfold contentAt?
    rw [find?_put hne]
    by_cases heq : other = location <;> simp [heq]

/-- A file in place of no directory adds no directory. -/
theorem find?_of_put_file (hne : location ≠ []) {other : Location} {m : Nat}
    (h : (d.put location (.file mode content)).find? other = some (.directory m)) :
    d.find? other = some (.directory m) := by
  rw [find?_put hne] at h
  split at h
  · cases h
  · exact h

/-- Putting a directory where nothing stands keeps the files. -/
theorem keeps_put (hne : location ≠ []) (hold : d.find? location = none) (mode : Nat) :
    d.Keeps (d.put location (.directory mode)) where
  current := rfl
  directories other m hother := by
    have hdiff : other ≠ location := by
      rintro rfl
      rw [hold] at hother
      cases hother
    exact ⟨m, by rw [find?_put hne, if_neg hdiff, hother]⟩
  contents other := by
    unfold contentAt?
    rw [find?_put hne]
    by_cases heq : other = location <;> simp [heq, hold]

/-- Removing a file removes that file. -/
theorem becomes_erase (hne : location ≠ []) (hold : ∀ m, d.find? location ≠ some (.directory m)) :
    d.Becomes (d.erase location) location none where
  current := rfl
  directories other m hother := by
    -- what is removed is no directory
    have hdiff : other ≠ location := by
      rintro rfl
      exact hold m hother
    exact ⟨m, by rw [find?_erase hne, if_neg hdiff, hother]⟩
  contents other := by
    unfold contentAt?
    rw [find?_erase hne]
    by_cases heq : other = location <;> simp [heq]

/-! ### Directories -/

theorem keeps_makeDirectory (h : d.makeDirectory path mode = .ok e) : d.Keeps e := by
  unfold makeDirectory at h
  split at h
  · cases h
  · cases h
  · split at h
    · cases h
    case h_2 hnone =>
      obtain rfl := Except.ok.inj h
      exact keeps_put (by simp) hnone _

theorem keeps_ensureDirectory (h : d.ensureDirectory path mode = .ok e) : d.Keeps e := by
  unfold ensureDirectory at h
  split at h
  case h_1 hmade =>
    obtain rfl := Except.ok.inj h
    exact keeps_makeDirectory hmade
  case h_2 =>
    split at h
    · obtain rfl := Except.ok.inj h
      rfl
    · cases h

/-- What the making of each directory on the way does to a disk, the making of all of them does,
also when it fails half-way. -/
theorem rel_makeDirectoriesWithin {R : Disk → Disk → Prop} {P : String → Prop}
    (hrefl : ∀ d, R d d) (htrans : ∀ {d e f}, R d e → R e f → R d f)
    (hparent : ∀ {path parent}, P path → Path.parent? path = some parent → P parent)
    (hensure : ∀ {d e path}, P path → d.ensureDirectory path mode = .ok e → R d e)
    (hpath : P path) (fuel : Nat) (d : Disk) : R d (makeDirectoriesWithin path mode fuel d).1 := by
  induction fuel generalizing path d with
  | zero => exact hrefl d
  | succ fuel ih =>
    unfold makeDirectoriesWithin
    split
    · exact hrefl d
    · split
      case h_1 hmade => exact hensure hpath hmade
      case h_2 => exact hrefl d
      case h_3 parent _ habove =>
        -- the directory above is made first, and this one if that succeeds
        have hfirst := ih (hparent hpath habove) d
        split
        case h_1 hfail =>
          rw [hfail] at hfirst
          exact hfirst
        case h_2 hdone =>
          rw [hdone] at hfirst
          split
          case h_1 hmade => exact htrans hfirst (hensure hpath hmade)
          case h_2 => exact hfirst
      case h_4 => exact hrefl d

/-- Making a directory and those above it keeps the files. -/
theorem keeps_makeDirectories (d : Disk) (path : String) (mode : Nat) :
    d.Keeps (d.makeDirectories path mode).1 :=
  rel_makeDirectoriesWithin .refl .trans (fun _ _ => trivial) (fun _ => keeps_ensureDirectory)
    trivial _ d

/-! ### The file of a key -/

variable (hvalid : KeyName.Valid name)

include hvalid

/-- Creating a key's file puts an empty one where nothing was. -/
theorem eq_put_of_createNew (h : d.createNew (Path.join directory name) mode = .ok e) :
    (∃ target, d.locate (Path.join directory name) = .ok target) ∧
      d.find? (d.placeOf directory name) = none ∧
        e = d.put (d.placeOf directory name) (.file (d.newMode mode) []) := by
  unfold createNew at h
  split at h
  · cases h
  · cases h
  case h_3 parent part slash hlocate =>
    refine ⟨⟨_, hlocate⟩, ?_⟩
    -- the path leads to the entry of the name at the key's place
    obtain ⟨p, hentry, hplace⟩ := eq_of_locate_join hvalid hlocate
    obtain ⟨rfl, rfl, rfl⟩ := Target.entry.inj hentry
    rw [hplace] at h
    split at h
    · cases h
    case h_2 hnone =>
      rw [if_neg Bool.false_ne_true] at h
      exact ⟨hnone, (Except.ok.inj h).symm⟩

/-- Writing into a key's file puts it with another content where it was. -/
theorem eq_put_of_writeAt {offset : Nat} {bytes : List UInt8}
    (h : d.writeAt (Path.join directory name) offset bytes = .ok e) :
    ∃ m content, d.find? (d.placeOf directory name) = some (.file m content) ∧
      e = d.put (d.placeOf directory name) (.file m (overwrite content offset bytes)) := by
  unfold writeAt at h
  split at h
  · cases h
  case h_2 target hlocate =>
    obtain ⟨p, rfl, hplace⟩ := eq_of_locate_join hvalid hlocate
    rw [Target.location, hplace] at h
    split at h
    · cases h
    · cases h
    case h_3 m content hfile => exact ⟨m, content, hfile, (Except.ok.inj h).symm⟩

/-- Removing a key's file takes away the file that was there. -/
theorem eq_erase_of_remove (h : d.remove (Path.join directory name) = .ok e) :
    ∃ m content, d.find? (d.placeOf directory name) = some (.file m content) ∧
      e = d.erase (d.placeOf directory name) := by
  unfold remove at h
  split at h
  · cases h
  · cases h
  case h_3 parent part slash hlocate =>
    obtain ⟨p, hentry, hplace⟩ := eq_of_locate_join hvalid hlocate
    obtain ⟨rfl, rfl, rfl⟩ := Target.entry.inj hentry
    rw [hplace] at h
    split at h
    · cases h
    · cases h
    case h_3 m content hfile =>
      rw [if_neg Bool.false_ne_true] at h
      exact ⟨m, content, hfile, (Except.ok.inj h).symm⟩

/-- Creating a key's file makes an empty one where there was none. -/
theorem becomes_createNew (h : d.createNew (Path.join directory name) mode = .ok e) :
    (∃ target, d.locate (Path.join directory name) = .ok target) ∧
      d.contentAt? (d.placeOf directory name) = none ∧
        d.Becomes e (d.placeOf directory name) (some []) := by
  obtain ⟨hlocate, hnone, rfl⟩ := eq_put_of_createNew hvalid h
  refine ⟨hlocate, ?_, becomes_put (by simp [placeOf]) (by simp [hnone]) _ _⟩
  rw [contentAt?, hnone]

/-- Writing into a key's file changes its content. -/
theorem becomes_writeAt {offset : Nat} {bytes : List UInt8}
    (h : d.writeAt (Path.join directory name) offset bytes = .ok e) :
    ∃ content, d.contentAt? (d.placeOf directory name) = some content ∧
      d.Becomes e (d.placeOf directory name) (some (overwrite content offset bytes)) := by
  obtain ⟨m, content, hfile, rfl⟩ := eq_put_of_writeAt hvalid h
  refine ⟨content, ?_, becomes_put (by simp [placeOf]) (by simp [hfile]) _ _⟩
  rw [contentAt?, hfile]

/-- Removing a key's file removes it. -/
theorem becomes_remove (h : d.remove (Path.join directory name) = .ok e) :
    (∃ content, d.contentAt? (d.placeOf directory name) = some content) ∧
      d.Becomes e (d.placeOf directory name) none := by
  obtain ⟨m, content, hfile, rfl⟩ := eq_erase_of_remove hvalid h
  refine ⟨⟨content, ?_⟩, becomes_erase (by simp [placeOf]) (by simp [hfile])⟩
  rw [contentAt?, hfile]

/-- Making a key's file adds no directory. -/
theorem directory_of_createNew {other : Location} {m : Nat}
    (h : d.createNew (Path.join directory name) mode = .ok e)
    (hother : e.find? other = some (.directory m)) : d.find? other = some (.directory m) := by
  obtain ⟨-, -, rfl⟩ := eq_put_of_createNew hvalid h
  exact find?_of_put_file (by simp [placeOf]) hother

/-- Writing into a key's file adds no directory. -/
theorem directory_of_writeAt {other : Location} {m offset : Nat} {bytes : List UInt8}
    (h : d.writeAt (Path.join directory name) offset bytes = .ok e)
    (hother : e.find? other = some (.directory m)) : d.find? other = some (.directory m) := by
  obtain ⟨_, _, -, rfl⟩ := eq_put_of_writeAt hvalid h
  exact find?_of_put_file (by simp [placeOf]) hother

/-- Removing a key's file adds no directory. -/
theorem directory_of_remove {other : Location} {m : Nat}
    (h : d.remove (Path.join directory name) = .ok e)
    (hother : e.find? other = some (.directory m)) : d.find? other = some (.directory m) := by
  obtain ⟨_, _, -, rfl⟩ := eq_erase_of_remove hvalid h
  rw [find?_erase (by simp [placeOf])] at hother
  split at hother
  · cases hother
  · exact hother

/-- A key's file is read if its path leads somewhere and a file stands at its place. -/
theorem read_eq_ok_iff :
    d.read (Path.join directory name) = .ok content ↔
      (∃ target, d.locate (Path.join directory name) = .ok target) ∧
        d.contentAt? (d.placeOf directory name) = some content := by
  unfold read status
  cases hlocate : d.locate (Path.join directory name) with
  | error fault => simp
  | ok target =>
    obtain ⟨p, rfl, hplace⟩ := eq_of_locate_join hvalid hlocate
    simp only [Target.location, hplace, contentAt?]
    cases hnode : d.find? (d.placeOf directory name) with
    | none => simp
    | some node => cases node <;> simp

end Keyring.Disk
