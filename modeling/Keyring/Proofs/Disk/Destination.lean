import Keyring.Proofs.Disk.Files
import Keyring.Proofs.Disk.Locality

/-!
# The file at the end of a path

The text of a path decides where it ends, whether or not it leads there on a disk. The calls that
write a file by its path change nothing but what stands there.

- `openMode`: the permission bits of a file that is opened for writing;
- `exists_put_of_createOrTruncate`, `exists_put_of_writeAt`, `exists_put_of_setMode`: the disk after
  each call;
- `Touches`: the changes that may be made by such calls and by the making of the directories above;
- `getElem?_overwrite`, `length_overwrite`: the bytes of a file that was written into.
-/

namespace Keyring.Disk

variable {d e f : Disk} {path : String} {target : Target} {place : Location} {mode offset : Nat}
  {bytes content : List UInt8}

/-- The permission bits of a file that is opened for writing: those that it has, or those that a new
one gets. -/
def openMode (d : Disk) (path : String) (mode : Nat) : Nat :=
  match d.find? (d.endOf path) with
  | some (.file mode _) => mode
  | _ => d.newMode mode

/-- The root is a directory. -/
theorem ne_nil_of_find?_ne (h : ∀ m, d.find? place ≠ some (.directory m)) : place ≠ [] := by
  rintro rfl
  exact h 0o755 (by rw [find?, if_pos rfl])

/-- What was put in place of no directory stands there. -/
theorem find?_put_self (hold : ∀ m, d.find? place ≠ some (.directory m)) (node : Node) :
    (d.put place node).find? place = some node := by
  rw [find?_put (ne_nil_of_find?_ne hold), if_pos rfl]

/-! ### Calls -/

/-- A file that is opened for writing comes to stand where a path ends that leads somewhere and
where no directory stands. -/
theorem exists_put_of_createOrTruncate (h : d.createOrTruncate path mode = .ok e) :
    (∃ parent name, d.locate path = .ok (.entry parent name false)) ∧
      (∀ m, d.find? (d.endOf path) ≠ some (.directory m)) ∧
        e = d.put (d.endOf path) (.file (d.openMode path mode) []) := by
  unfold createOrTruncate at h
  split at h
  · cases h
  · cases h
  case h_3 parent name slash hlocate =>
    have hplace : parent ++ [name] = d.endOf path := location_of_locate hlocate
    rw [hplace] at h
    split at h
    · cases h
    case h_2 m content hfile =>
      split at h
      · cases h
      case isFalse hslash =>
        rw [Bool.not_eq_true] at hslash
        subst hslash
        refine ⟨⟨parent, name, hlocate⟩, by simp [hfile], ?_⟩
        rw [openMode, hfile, (Except.ok.inj h)]
    case h_3 hnone =>
      split at h
      · cases h
      case isFalse hslash =>
        rw [Bool.not_eq_true] at hslash
        subst hslash
        refine ⟨⟨parent, name, hlocate⟩, by simp [hnone], ?_⟩
        rw [openMode, hnone, (Except.ok.inj h)]

/-- What is written goes into the file that stands where the path ends. -/
theorem exists_put_of_writeAt (h : d.writeAt path offset bytes = .ok e) :
    ∃ m content, d.find? (d.endOf path) = some (.file m content) ∧
      e = d.put (d.endOf path) (.file m (overwrite content offset bytes)) := by
  unfold writeAt at h
  split at h
  · cases h
  case h_2 target hlocate =>
    rw [location_of_locate hlocate] at h
    split at h
    · cases h
    · cases h
    case h_3 m content hfile => exact ⟨m, content, hfile, (Except.ok.inj h).symm⟩

/-- Permission bits are set of the file that stands where the path ends. -/
theorem exists_put_of_setMode (h : d.setMode path mode = .ok e)
    (hold : ∀ m, d.find? (d.endOf path) ≠ some (.directory m)) :
    ∃ m content, d.find? (d.endOf path) = some (.file m content) ∧
      e = d.put (d.endOf path) (.file mode content) := by
  unfold setMode at h
  split at h
  · cases h
  case h_2 target hlocate =>
    rw [location_of_locate hlocate] at h
    split at h
    · cases h
    case h_2 m hdirectory => exact absurd hdirectory (hold m)
    case h_3 m content hfile => exact ⟨m, content, hfile, (Except.ok.inj h).symm⟩

/-- A path that leads to a file, and does not ask for a directory, exists. -/
theorem pathExists_of_locate {parent : Location} {name : String}
    (hlocate : d.locate path = .ok (.entry parent name false))
    (hfile : d.contentAt? (d.endOf path) = some content) : d.pathExists path = true := by
  obtain ⟨m, hnode⟩ := exists_file_of_contentAt? hfile
  rw [← location_of_locate hlocate] at hnode
  have hstatus : d.status path = .ok (.file m content) := by simp [status, hlocate, hnode]
  rw [pathExists, hstatus]
  rfl

/-! ### Changes -/

/-- One disk is another one with more directories, on which the file where a path ends may have been
made or changed. -/
structure Touches (path : String) (d e : Disk) : Prop where
  current : e.current = d.current
  nodes : ∀ place, e.find? place = d.find? place ∨
    (d.find? place = none ∧ ∃ mode, e.find? place = some (.directory mode)) ∨
      place = d.endOf path ∧ (∀ mode, d.find? place ≠ some (.directory mode)) ∧
        ∃ mode content, e.find? place = some (.file mode content)

theorem Touches.endOf_eq (h : d.Touches path e) (other : String) :
    e.endOf other = d.endOf other := by
  rw [endOf, h.current, endOf]

@[refl] theorem Touches.refl (path : String) (d : Disk) : d.Touches path d :=
  ⟨rfl, fun _ => .inl rfl⟩

@[trans] theorem Touches.trans (h : d.Touches path e) (h' : e.Touches path f) :
    d.Touches path f where
  current := h'.current.trans h.current
  nodes place := by
    rcases h'.nodes place with hsame' | ⟨hnone', hmade'⟩ | ⟨rfl, hold', hfile'⟩
    · rw [hsame']
      exact h.nodes place
    · -- what is made now was not there before, either
      rcases h.nodes place with hsame | ⟨-, mode, hmade⟩ | ⟨-, -, mode, content, hfile⟩
      · exact .inr (.inl ⟨hsame ▸ hnone', hmade'⟩)
      · cases hnone'.symm.trans hmade
      · cases hnone'.symm.trans hfile
    · refine .inr (.inr ⟨h.endOf_eq path, fun mode hdirectory => ?_, hfile'⟩)
      -- a directory would still stand there
      rcases h.nodes (e.endOf path) with hsame | ⟨hnone, -⟩ | ⟨-, hold, -⟩
      · exact hold' mode (hsame.trans hdirectory)
      · cases hnone.symm.trans hdirectory
      · exact hold mode hdirectory

theorem MakesAlong.touches (h : d.MakesAlong path e) : d.Touches path e where
  current := h.current
  nodes place := by
    rcases h.nodes place with hsame | ⟨hnone, -, hmade⟩
    · exact .inl hsame
    · exact .inr (.inl ⟨hnone, hmade⟩)

/-- New directories change no file. -/
theorem MakesAlong.contentAt?_eq (h : d.MakesAlong path e) (place : Location) :
    e.contentAt? place = d.contentAt? place := by
  rcases h.nodes place with hsame | ⟨hnone, -, mode, hmade⟩
  · rw [contentAt?, hsame, contentAt?]
  · rw [contentAt?, hmade, contentAt?, hnone]

/-- A file may be put where the path ends, in place of no directory. -/
theorem touches_put (hold : ∀ m, d.find? (d.endOf path) ≠ some (.directory m)) (mode : Nat)
    (content : List UInt8) : d.Touches path (d.put (d.endOf path) (.file mode content)) where
  current := rfl
  nodes place := by
    rw [find?_put (ne_nil_of_find?_ne hold)]
    split
    case isTrue hplace => exact .inr (.inr ⟨hplace, hplace ▸ hold, mode, content, rfl⟩)
    case isFalse => exact .inl rfl

/-- No directory is lost. -/
theorem Touches.grows (h : d.Touches path e) : d.Grows e where
  current := h.current
  directories place mode hdirectory := by
    rcases h.nodes place with hsame | ⟨hnone, -⟩ | ⟨-, hold, -⟩
    · exact ⟨mode, hsame.trans hdirectory⟩
    · cases hnone.symm.trans hdirectory
    · exact absurd hdirectory (hold mode)

/-- Elsewhere there may only be more directories. -/
theorem Touches.nodes_of_ne (h : d.Touches path e) (hne : place ≠ d.endOf path) :
    e.find? place = d.find? place ∨
      d.find? place = none ∧ ∃ mode, e.find? place = some (.directory mode) := by
  rcases h.nodes place with hsame | hmade | ⟨hplace, -⟩
  · exact .inl hsame
  · exact .inr hmade
  · exact absurd hplace hne

/-- The files elsewhere are as before. -/
theorem Touches.contentAt?_of_ne (h : d.Touches path e) (hne : place ≠ d.endOf path) :
    e.contentAt? place = d.contentAt? place := by
  rcases h.nodes_of_ne hne with hsame | ⟨hnone, mode, hmade⟩
  · rw [contentAt?, hsame, contentAt?]
  · rw [contentAt?, hmade, contentAt?, hnone]

/-! ### Bytes -/

theorem length_overwrite (content : List UInt8) (offset : Nat) (bytes : List UInt8) :
    (overwrite content offset bytes).length = max content.length (offset + bytes.length) := by
  simp only [overwrite, List.length_append, List.length_take, List.length_replicate,
    List.length_drop]
  omega

/-- A byte of a file that was written into is one that was written, one that stood there, or zero,
where there was none before what was written. -/
theorem getElem?_overwrite {n : Nat} {byte : UInt8}
    (h : (overwrite content offset bytes)[n]? = some byte) :
    (offset ≤ n ∧ bytes[n - offset]? = some byte) ∨ content[n]? = some byte ∨ byte = 0 := by
  rw [overwrite, List.getElem?_append] at h
  split at h
  case isTrue hwithin =>
    rw [List.getElem?_append] at h
    split at h
    case isTrue hfront =>
      rw [List.getElem?_append] at h
      split at h
      · rw [List.getElem?_take] at h
        split at h
        · exact .inr (.inl h)
        · cases h
      · exact .inr (.inr (List.eq_of_mem_replicate (List.mem_of_getElem? h)))
    case isFalse hbehind =>
      -- the bytes begin at the offset, with zeros before it if the file is shorter
      have hlength : (content.take offset ++ List.replicate (offset - content.length) 0).length =
          offset := by simp; omega
      rw [hlength] at h hbehind
      exact .inl ⟨Nat.le_of_not_lt hbehind, h⟩
  case isFalse hbehind =>
    have hlength : (content.take offset ++ List.replicate (offset - content.length) 0 ++
        bytes).length = offset + bytes.length := by simp; omega
    rw [hlength, List.getElem?_drop, Nat.add_sub_cancel' (by omega)] at h
    exact .inr (.inl h)

end Keyring.Disk
