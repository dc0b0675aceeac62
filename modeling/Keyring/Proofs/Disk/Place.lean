import Mathlib.Tactic.Common
import Keyring.Disk
import Keyring.KeyName

/-!
# The place of a key's file

The path of a key is its name below the directory of the store. Wherever it leads, it leads to the
entry of that name at a place that the text of the directory alone decides: no file and no other
key can change it.

* `parts_join` — the parts of the path are those of the directory and the name;
* `Disk.locate_join` — where the path of a key leads, if it leads anywhere;
* `Disk.Grows` — one disk has all the directories of another, so that every path leads where it
  did (`Grows.locate`).
-/

namespace Keyring

namespace KeyName

variable {name : String}

/-- What a valid name is not, and what it does not hold. -/
theorem valid_iff : Valid name ↔
    name ≠ "" ∧ name.utf8ByteSize ≤ maxSize ∧ name ≠ "." ∧ name ≠ ".." ∧
      ∀ c ∈ name.toList, isSeparator c = false := by
  unfold Valid fault?
  constructor
  · intro h
    split_ifs at h with hempty hlong hdots hseparator
    simp only [Bool.or_eq_true, decide_eq_true_eq, not_or] at hdots
    refine ⟨hempty, Nat.not_lt.1 hlong, hdots.1, hdots.2, ?_⟩
    simpa using hseparator
  · rintro ⟨hempty, hlong, hdot, hdots, hseparator⟩
    rw [if_neg hempty, if_neg (Nat.not_lt.2 hlong), if_neg (by simp [hdot, hdots]), if_neg]
    simpa using hseparator

theorem slash_notMem_of_valid (h : Valid name) : '/' ∉ name.toList := by
  intro hmem
  exact Bool.noConfusion ((valid_iff.1 h).2.2.2.2 '/' hmem)

theorem toList_ne_nil_of_valid (h : Valid name) : name.toList ≠ [] := by
  rw [Ne, String.toList_eq_nil_iff]
  exact (valid_iff.1 h).1

end KeyName

namespace Path

variable {directory name : String}

/-- A text without slash is one segment. -/
theorem segments_of_notMem {s : List Char} (h : '/' ∉ s) : segments s = [s] := by
  induction s with
  | nil => rfl
  | cons c s ih =>
    rw [List.mem_cons, not_or] at h
    rw [segments, if_neg (Ne.symm h.1), ih h.2]

/-- A slash separates the segments before it from those after it. -/
theorem segments_append_slash (a b : List Char) :
    segments (a ++ '/' :: b) = segments a ++ segments b := by
  induction a with
  | nil => rfl
  | cons c a ih =>
    rw [List.cons_append]
    by_cases hc : c = '/'
    · simp only [segments, hc, if_true, ih, List.cons_append]
    · -- any text has a first segment, which the character begins
      have hne : segments a ≠ [] := by
        cases a with
        | nil => exact List.cons_ne_nil _ _
        | cons d a => unfold segments; split <;> [skip; split] <;> exact List.cons_ne_nil _ _
      obtain ⟨s, ss, hs⟩ := List.exists_cons_of_ne_nil hne
      simp only [segments, if_neg hc, ih, hs, List.cons_append]

/-- What a key's path consists of. -/
theorem toList_join (h : KeyName.Valid name) :
    (join directory name).toList =
      (if directory = "" || endsInSlash directory then directory.toList
        else directory.toList ++ ['/']) ++ name.toList := by
  have hname : isAbsolute name = false := by
    obtain ⟨c, cs, hcs⟩ := List.exists_cons_of_ne_nil (KeyName.toList_ne_nil_of_valid h)
    have hc : c ≠ '/' := by
      rintro rfl
      exact KeyName.slash_notMem_of_valid h (by simp [hcs])
    simpa [isAbsolute, hcs] using hc
  unfold join
  rw [if_neg (by simp [hname])]
  split <;> simp [String.toList_append]

/-- The parts of a key's path are those of the directory and the name. -/
theorem parts_join (h : KeyName.Valid name) :
    parts (join directory name) = parts directory ++ [name] := by
  have hname := segments_of_notMem (KeyName.slash_notMem_of_valid h)
  have hlast : ([name.toList].filter fun s => s ≠ []).map String.ofList = [name] := by
    simp [KeyName.toList_ne_nil_of_valid h]
  unfold parts
  rw [toList_join h]
  -- a directory that is empty or ends in a slash is joined without another one
  split
  case isTrue hdir =>
    rw [Bool.or_eq_true, decide_eq_true_eq] at hdir
    rcases hdir with rfl | hdir
    · rw [String.toList_empty, List.nil_append, hname, hlast]
      rfl
    · obtain ⟨front, hfront⟩ := List.getLast?_eq_some_iff.1 (eq_of_beq hdir)
      rw [hfront, List.append_assoc, List.singleton_append, segments_append_slash,
        segments_append_slash, hname, List.filter_append, List.filter_append, List.map_append,
        List.map_append, hlast, show segments [] = [[]] from rfl]
      simp
  case isFalse =>
    rw [List.append_assoc, List.singleton_append, segments_append_slash, hname, List.filter_append,
      List.map_append, hlast]

/-- A key's path is absolute if that of the directory is. -/
theorem isAbsolute_join (h : KeyName.Valid name) :
    isAbsolute (join directory name) = isAbsolute directory := by
  have hslash := KeyName.slash_notMem_of_valid h
  unfold isAbsolute
  rw [toList_join h]
  cases hdir : directory.toList with
  | nil =>
    obtain ⟨c, cs, hcs⟩ := List.exists_cons_of_ne_nil (KeyName.toList_ne_nil_of_valid h)
    obtain rfl := String.toList_eq_nil_iff.1 hdir
    have hc : c ≠ '/' := by
      rintro rfl
      exact hslash (by simp [hcs])
    simp [hcs, hc]
  | cons c cs => split <;> rfl

theorem endsInSlash_join (h : KeyName.Valid name) :
    endsInSlash (join directory name) = false := by
  have hslash := KeyName.slash_notMem_of_valid h
  unfold endsInSlash
  rw [toList_join h, List.getLast?_append]
  cases hlast : name.toList.getLast? with
  | none => exact absurd (List.getLast?_eq_none_iff.1 hlast) (KeyName.toList_ne_nil_of_valid h)
  | some c =>
    have hc : c ≠ '/' := by
      rintro rfl
      exact hslash (List.mem_of_getLast? hlast)
    simpa using hc

end Path

namespace Disk

variable {d e : Disk} {directory name path : String} {location : Location} {target : Target}

/-- Where the parts of a path lead from a place, as far as they lead anywhere. -/
def descend (location : Location) : List String → Location
  | [] => location
  | part :: parts =>
    descend
      (if part = "." then location else if part = ".." then location.dropLast
        else location ++ [part]) parts

/-- The place of the file of a key in a directory. -/
def placeOf (d : Disk) (directory name : String) : Location :=
  descend (if Path.isAbsolute directory then [] else d.current) (Path.parts directory) ++ [name]

/-- Different keys have different places. -/
theorem placeOf_injective (h : d.placeOf directory name = d.placeOf directory path) :
    name = path := by
  simpa [placeOf] using h

/-- One step of a path leads to one place. -/
theorem eq_of_enter {part : String} {l : Location} (h : d.enter location part = .ok l) :
    l = if part = "." then location else if part = ".." then location.dropLast
      else location ++ [part] := by
  unfold enter at h
  split_ifs at h ⊢
  · exact (Except.ok.inj h).symm
  · exact (Except.ok.inj h).symm
  · split at h
    · cases h
    · cases h
    · exact (Except.ok.inj h).symm

/-- Where the parts of a key's path lead, if they lead anywhere. -/
theorem eq_of_walk (hvalid : KeyName.Valid name) {slash : Bool} {parts : List String}
    (h : d.walk location slash (parts ++ [name]) = .ok target) :
    target = .entry (descend location parts) name slash := by
  obtain ⟨-, hsize, hdot, hdots, -⟩ := KeyName.valid_iff.1 hvalid
  have hshort : ¬maxPartSize < name.utf8ByteSize := Nat.not_lt.2 hsize
  induction parts generalizing location with
  | nil =>
    -- the last part is not entered, whatever stands there
    rw [List.nil_append, walk, if_neg (by simp [hdot, hdots]), if_neg hshort] at h
    exact (Except.ok.inj h).symm
  | cons part parts ih =>
    rw [List.cons_append, walk.eq_3 _ _ _ _ _ (by simp)] at h
    split at h
    case h_1 => cases h
    case h_2 l hl =>
      rw [ih h, eq_of_enter hl]
      rfl

/-- Where the path of a key leads, if it leads anywhere. -/
theorem eq_of_locate_join (hvalid : KeyName.Valid name)
    (h : d.locate (Path.join directory name) = .ok target) :
    ∃ parent, target = .entry parent name false ∧ parent ++ [name] = d.placeOf directory name := by
  unfold locate at h
  split_ifs at h with hnul hempty hlong habs
  all_goals
    rw [Path.endsInSlash_join hvalid, Path.parts_join hvalid] at h
    rw [Path.isAbsolute_join hvalid] at habs
    refine ⟨_, eq_of_walk hvalid h, ?_⟩
    simp [placeOf, habs]

/-! ### Growth -/

/-- One disk has all the directories of another and the same current directory. -/
structure Grows (d e : Disk) : Prop where
  /-- The current directory is the same. -/
  current : e.current = d.current
  /-- No directory is lost. -/
  directories : ∀ location mode, d.find? location = some (.directory mode) →
    ∃ mode, e.find? location = some (.directory mode)

@[refl] theorem Grows.refl (d : Disk) : d.Grows d := ⟨rfl, fun _ mode h => ⟨mode, h⟩⟩

@[trans] theorem Grows.trans {f : Disk} (h : d.Grows e) (h' : e.Grows f) : d.Grows f where
  current := h'.current.trans h.current
  directories location mode hd := by
    obtain ⟨mode', he⟩ := h.directories location mode hd
    exact h'.directories location mode' he

/-- A step of a path leads on a grown disk where it did. -/
theorem Grows.enter (h : d.Grows e) {part : String} {l : Location}
    (hl : d.enter location part = .ok l) : e.enter location part = .ok l := by
  unfold Disk.enter at hl ⊢
  split_ifs at hl ⊢
  · exact hl
  · exact hl
  · split at hl
    · cases hl
    · cases hl
    case h_3 mode hd =>
      -- the directory that is entered is still there
      obtain ⟨mode', he⟩ := h.directories _ mode hd
      rw [he]
      exact hl

/-- The parts of a path lead on a grown disk where they did. -/
theorem Grows.walk (h : d.Grows e) {slash : Bool} {parts : List String}
    (hd : d.walk location slash parts = .ok target) :
    e.walk location slash parts = .ok target := by
  induction parts generalizing location with
  | nil => exact hd
  | cons part parts ih =>
    cases parts with
    | nil =>
      rw [Disk.walk] at hd ⊢
      split_ifs at hd ⊢
      · cases hl : d.enter location part with
        | error fault =>
          rw [hl] at hd
          cases hd
        | ok l =>
          rw [hl] at hd
          rw [h.enter hl]
          exact hd
      · exact hd
    | cons next parts =>
      rw [Disk.walk.eq_3 _ _ _ _ _ (List.cons_ne_nil _ _)] at hd ⊢
      cases hl : d.enter location part with
      | error fault =>
        rw [hl] at hd
        cases hd
      | ok l =>
        rw [hl] at hd
        rw [h.enter hl]
        exact ih hd

/-- A path leads on a grown disk where it did. -/
theorem Grows.locate (h : d.Grows e) (hd : d.locate path = .ok target) :
    e.locate path = .ok target := by
  unfold Disk.locate at hd ⊢
  rw [h.current]
  split_ifs at hd ⊢
  all_goals exact h.walk hd

end Disk

end Keyring
