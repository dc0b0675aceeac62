import Keyring.Proofs.Disk.Serving

/-!
# Files by any path

A path that leads to a file leads there again while no directory is lost, and what is read by it is
what was written by it last.

- `read_eq_ok_iff_locate`: what is read by a path;
- `read_of_same`: a file with the same content is read as before;
- `overwrite_take`: writing the next bytes of a content;
- `read_of_createOrTruncate`, `read_of_writeAt`, `read_of_setMode`: what is read after a call.
-/

namespace Keyring.Disk

variable {d e : Disk} {path : String} {content bytes : List UInt8} {target : Target}
  {mode offset : Nat}

/-! ### Reading -/

/-- What is read by a path is the content of the file that it leads to, unless it ends in a
slash. -/
theorem read_eq_ok_iff_locate : d.read path = .ok content ↔
    ∃ target, d.locate path = .ok target ∧ (∀ parent name, target ≠ .entry parent name true) ∧
      ∃ mode, d.find? target.location = some (.file mode content) := by
  unfold read status
  cases d.locate path with
  | error fault => simp
  | ok target =>
    simp only [Except.ok.injEq, exists_eq_left']
    cases hnode : d.find? target.location with
    | none => simp
    | some node =>
      rcases target with place | ⟨parent, name, slash | slash⟩ <;> cases node <;> simp

/-- What is read off a disk is the content of the file that the path leads to. -/
theorem exists_target_of_read (h : d.read path = .ok content) :
    ∃ target, d.locate path = .ok target ∧ d.contentAt? target.location = some content := by
  obtain ⟨target, hlocate, -, mode, hfile⟩ := read_eq_ok_iff_locate.1 h
  exact ⟨target, hlocate, by rw [contentAt?, hfile]⟩

/-- A file that is read exists. -/
theorem pathExists_of_read (h : d.read path = .ok content) : d.pathExists path = true := by
  unfold read at h
  cases hstatus : d.status path with
  | error fault =>
    rw [hstatus] at h
    cases h
  | ok node => rw [pathExists, hstatus, Except.toBool]

/-- A path that leads to a file is read again if it leads there on another disk, too, and the file
has the same content. -/
theorem read_of_same (h : d.read path = .ok content) (hgrows : d.Grows e)
    (hsame : ∀ target, d.locate path = .ok target →
      e.contentAt? target.location = d.contentAt? target.location) :
    e.read path = .ok content := by
  obtain ⟨target, hlocate, hslash, mode, hfile⟩ := read_eq_ok_iff_locate.1 h
  have hthere : e.contentAt? target.location = some content := by
    rw [hsame target hlocate, contentAt?, hfile]
  exact read_eq_ok_iff_locate.2
    ⟨target, hgrows.locate hlocate, hslash, exists_file_of_contentAt? hthere⟩

/-! ### Writing -/

/-- Writing the next bytes of a content makes the file the longer part of it. -/
theorem overwrite_take (content : List UInt8) {written : Nat} (h : written ≤ content.length)
    (limit : Nat) :
    overwrite (content.take written) written ((content.drop written).take limit) =
      content.take (written + limit) := by
  have hlength : (content.take written).length = written := List.length_take_of_le h
  -- the file ends where the writing goes on
  have hdrop (n : Nat) : (content.take written).drop (written + n) = [] :=
    List.drop_eq_nil_of_le (by rw [hlength]; exact Nat.le_add_right _ _)
  rw [overwrite, hlength, Nat.sub_self, hdrop, List.replicate_zero, List.append_nil,
    List.append_nil, List.take_take, Nat.min_self, List.take_add]

/-- A file that is put where a path leads is read by it. -/
theorem read_put (hlocate : d.locate path = .ok target)
    (hslash : ∀ parent name, target ≠ .entry parent name true)
    (hold : ∀ m, d.find? target.location ≠ some (.directory m)) (mode : Nat)
    (content : List UInt8) :
    (d.put target.location (.file mode content)).read path = .ok content := by
  have hne : target.location ≠ [] := by
    intro hroot
    refine hold 0o755 ?_
    rw [hroot, find?, if_pos rfl]
  have hgrows := (becomes_put hne hold mode content).toGrows
  refine read_eq_ok_iff_locate.2 ⟨target, hgrows.locate hlocate, hslash, mode, ?_⟩
  rw [find?_put hne, if_pos rfl]

/-- A file that was opened for writing is empty. -/
theorem read_of_createOrTruncate (h : d.createOrTruncate path mode = .ok e) :
    e.read path = .ok [] := by
  unfold createOrTruncate at h
  split at h
  · cases h
  · cases h
  case h_3 parent name slash hlocate =>
    split at h
    · cases h
    case h_2 hfile | h_3 hfile =>
      split at h
      · cases h
      case isFalse hslash =>
        obtain rfl := Except.ok.inj h
        refine read_put hlocate (fun parent name hentry => ?_) ?_ _ []
        · exact hslash (Target.entry.inj hentry).2.2
        · simp [Target.location, hfile]

/-- What was written into a file stands in it. -/
theorem read_of_writeAt (hread : d.read path = .ok content)
    (h : d.writeAt path offset bytes = .ok e) :
    e.read path = .ok (overwrite content offset bytes) := by
  obtain ⟨target, hlocate, hslash, m, hfile⟩ := read_eq_ok_iff_locate.1 hread
  simp only [writeAt, hlocate, hfile] at h
  obtain rfl := Except.ok.inj h
  exact read_put hlocate hslash (by simp [hfile]) _ _

/-- Setting the permission bits of a file leaves what stands in it. -/
theorem read_of_setMode (hread : d.read path = .ok content) (h : d.setMode path mode = .ok e) :
    e.read path = .ok content := by
  obtain ⟨target, hlocate, hslash, m, hfile⟩ := read_eq_ok_iff_locate.1 hread
  simp only [setMode, hlocate, hfile] at h
  obtain rfl := Except.ok.inj h
  exact read_put hlocate hslash (by simp [hfile]) _ _

end Keyring.Disk
