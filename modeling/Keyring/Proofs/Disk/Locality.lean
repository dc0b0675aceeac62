import Keyring.Proofs.Disk.Alike
import Keyring.Proofs.Disk.Directories

/-!
# What a call to the file system looks at

A call to the file system looks at the places that its path leads through, and at no others. On the
way it only tells directories from files; what a file holds matters at the end alone. On two disks
that agree so far, the call ends alike and changes the same.

- `Disk.endOf`: the place at the end of a path;
- `Disk.AgreeAlong`: two disks agree on the way of a path and at its end;
- `Disk.AgreeAlong.locate_eq`, `Disk.AgreeAlong.isDirectory_eq`, `Disk.AgreeAlong.read_eq`: what is
  looked up and read is the same;
- `Disk.AgreeAlong.makeDirectories`, `Disk.AgreeAlong.createNew`, `Disk.AgreeAlong.writeAt`,
  `Disk.AgreeAlong.remove`: the calls that change the disks end alike, and the disks go on agreeing.
-/

namespace Keyring

namespace Disk

variable {d e : Disk} {path above directory name : String} {location place : Location}

/-- The place at the end of a path. -/
def endOf (d : Disk) (path : String) : Location :=
  descend (if Path.isAbsolute path then [] else d.current) (Path.parts path)

/-- Where a path leads, if it leads anywhere. -/
theorem location_of_locate {target : Target} (h : d.locate path = .ok target) :
    target.location = d.endOf path := by
  unfold locate at h
  split_ifs at h with hnul hempty hlong habsolute
  all_goals simp [endOf, location_of_walk h, habsolute]

/-- Two disks on which entries of the same kind stand where a path leads through, and the same
stands at its end. -/
structure AgreeAlong (path : String) (d e : Disk) : Prop where
  current : d.current = e.current
  umask : d.umask = e.umask
  /-- Nothing, a file or a directory stands on the way. -/
  kinds : ∀ place, d.Passes path place →
    (d.find? place).map Node.isDirectory = (e.find? place).map Node.isDirectory
  /-- The file or the directory that the path leads to is the same. -/
  last : d.find? (d.endOf path) = e.find? (d.endOf path)

/-- What stands where after something was put or removed is told by what stood there before. -/
theorem find?_put_congr {β : Type} (f : Option Node → β)
    (h : f (d.find? place) = f (e.find? place)) (location : Location) (node : Node) :
    f ((d.put location node).find? place) = f ((e.put location node).find? place) := by
  unfold find? put at *
  by_cases hroot : place = []
  · rw [if_pos hroot, if_pos hroot]
  · rw [if_neg hroot, if_neg hroot] at h ⊢
    rw [FiniteMap.find?_insert, FiniteMap.find?_insert]
    split
    · rfl
    · exact h

theorem find?_erase_congr {β : Type} (f : Option Node → β)
    (h : f (d.find? place) = f (e.find? place)) (location : Location) :
    f ((d.erase location).find? place) = f ((e.erase location).find? place) := by
  unfold find? erase at *
  by_cases hroot : place = []
  · rw [if_pos hroot, if_pos hroot]
  · rw [if_neg hroot, if_neg hroot] at h ⊢
    rw [FiniteMap.find?_erase, FiniteMap.find?_erase]
    split
    · rfl
    · exact h

namespace AgreeAlong

@[refl] theorem refl (path : String) (d : Disk) : d.AgreeAlong path d :=
  ⟨rfl, rfl, fun _ _ => rfl, rfl⟩

/-- What is put where a path does not lead through is not on its way. -/
theorem put_right (hne : location ≠ []) (h : ¬d.Passes path location) (node : Node) :
    d.AgreeAlong path (d.put location node) := by
  have hsame (place : Location) (hpasses : d.Passes path place) :
      d.find? place = (d.put location node).find? place := by
    rw [find?_put hne, if_neg]
    rintro rfl
    exact h hpasses
  refine ⟨rfl, rfl, fun place hpasses => by rw [hsame place hpasses], hsame _ ?_⟩
  exact ⟨Path.parts path, (List.mem_inits _ _).2 List.prefix_rfl, rfl⟩

/-- Disks go on agreeing when the same is put somewhere on both. -/
theorem put (h : d.AgreeAlong path e) (location : Location) (node : Node) :
    (d.put location node).AgreeAlong path (e.put location node) where
  current := h.current
  umask := h.umask
  kinds place hpasses := find?_put_congr (Option.map _) (h.kinds place hpasses) location node
  last := find?_put_congr (fun node => node) h.last location node

/-- Disks go on agreeing when something is removed from both. -/
theorem erase (h : d.AgreeAlong path e) (location : Location) :
    (d.erase location).AgreeAlong path (e.erase location) where
  current := h.current
  umask := h.umask
  kinds place hpasses := find?_erase_congr (Option.map _) (h.kinds place hpasses) location
  last := find?_erase_congr (fun node => node) h.last location

theorem newMode_eq (h : d.AgreeAlong path e) (mode : Nat) : d.newMode mode = e.newMode mode := by
  rw [newMode, newMode, h.umask]

end AgreeAlong

/-! ### Looking up -/

/-- A step of a path depends on the kind of what stands where it leads. -/
theorem enter_congr {part : String}
    (h : (d.find? (descend location [part])).map Node.isDirectory =
      (e.find? (descend location [part])).map Node.isDirectory) :
    d.enter location part = e.enter location part := by
  unfold enter
  simp only [descend] at h
  split_ifs at h ⊢
  case pos | pos | pos => rfl
  case neg =>
    generalize d.find? (location ++ [part]) = node at *
    generalize e.find? (location ++ [part]) = node' at *
    rcases node with _ | (_ | _) <;> rcases node' with _ | (_ | _) <;> first
      | rfl
      | cases h

/-- The parts of a path lead to the same place if entries of the same kind stand where they lead
through. -/
theorem walk_congr {parts : List String} (slash : Bool)
    (h : ∀ front, front <+: parts →
      (d.find? (descend location front)).map Node.isDirectory =
        (e.find? (descend location front)).map Node.isDirectory) :
    d.walk location slash parts = e.walk location slash parts := by
  induction parts generalizing location with
  | nil => rfl
  | cons part parts ih =>
    have hfirst : d.enter location part = e.enter location part :=
      enter_congr (h [part] (by simp))
    cases parts with
    | nil => simp only [walk, hfirst]
    | cons next parts =>
      simp only [walk, hfirst]
      cases hl : e.enter location part with
      | error fault => rfl
      | ok l =>
        -- the rest of the parts leads on from the place that the first one leads to
        refine ih fun front hfront => ?_
        rw [eq_of_enter hl]
        exact h (part :: front) (List.cons_prefix_cons.2 ⟨rfl, hfront⟩)

namespace AgreeAlong

/-- A path leads to the same place. -/
theorem locate_eq (h : d.AgreeAlong path e) (habove : Path.Above above path) :
    d.locate above = e.locate above := by
  have hwalk (slash : Bool) :
      d.walk (if Path.isAbsolute above then [] else d.current) slash (Path.parts above) =
        e.walk (if Path.isAbsolute above then [] else d.current) slash (Path.parts above) := by
    refine walk_congr slash fun front hfront => h.kinds _ (Passes.of_above habove ?_)
    exact ⟨front, (List.mem_inits _ _).2 hfront, rfl⟩
  unfold locate
  rw [← h.current, hwalk]

/-- An entry of the same kind stands where a path leads to. -/
theorem kind_eq (h : d.AgreeAlong path e) (habove : Path.Above above path) {target : Target}
    (hlocate : e.locate above = .ok target) :
    (d.find? target.location).map Node.isDirectory =
      (e.find? target.location).map Node.isDirectory := by
  rw [← h.locate_eq habove] at hlocate
  exact h.kinds _ ((passes_of_locate hlocate).of_above habove)

/-- The same stands where the path itself leads to. -/
theorem find?_eq (h : d.AgreeAlong path e) {target : Target}
    (hlocate : e.locate path = .ok target) : d.find? target.location = e.find? target.location := by
  rw [← h.locate_eq (.refl path)] at hlocate
  rw [location_of_locate hlocate]
  exact h.last

theorem isDirectory_eq (h : d.AgreeAlong path e) (habove : Path.Above above path) :
    d.isDirectory above = e.isDirectory above := by
  unfold isDirectory status
  rw [h.locate_eq habove]
  cases hlocate : e.locate above with
  | error fault => rfl
  | ok target =>
    have hkind := h.kind_eq habove hlocate
    dsimp only
    generalize d.find? target.location = node at *
    generalize e.find? target.location = node' at *
    -- what a path that ends in a slash does not accept is no directory
    rcases target with _ | ⟨_, _, slash | slash⟩ <;>
      rcases node with _ | (_ | _) <;> rcases node' with _ | (_ | _) <;> first
        | rfl
        | cases hkind

theorem read_eq (h : d.AgreeAlong path e) : d.read path = e.read path := by
  unfold read status
  rw [h.locate_eq (.refl path)]
  cases hlocate : e.locate path with
  | error fault => rfl
  | ok target =>
    dsimp only
    rw [h.find?_eq hlocate]

/-! ### Directories -/

theorem makeDirectory (h : d.AgreeAlong path e) (habove : Path.Above above path) (mode : Nat) :
    SameResult (AgreeAlong path) (d.makeDirectory above mode) (e.makeDirectory above mode) := by
  unfold Disk.makeDirectory
  rw [h.locate_eq habove]
  cases hlocate : e.locate above with
  | error fault => exact .error fault
  | ok target =>
    have hkind := h.kind_eq habove hlocate
    cases target with
    | directory location => exact .error _
    | entry parent name slash =>
      dsimp only [Target.location] at hkind ⊢
      generalize d.find? (parent ++ [name]) = node at *
      generalize e.find? (parent ++ [name]) = node' at *
      -- whatever stands there is in the way
      cases node with
      | none =>
        obtain rfl : node' = none := Option.map_eq_none_iff.1 hkind.symm
        dsimp only
        rw [h.newMode_eq]
        exact .ok (h.put _ _)
      | some node =>
        obtain ⟨other, rfl, -⟩ := Option.map_eq_some_iff.1 hkind.symm
        exact .error _

theorem ensureDirectory (h : d.AgreeAlong path e) (habove : Path.Above above path) (mode : Nat) :
    SameResult (AgreeAlong path) (d.ensureDirectory above mode) (e.ensureDirectory above mode) :=
  sameResult_ensureDirectory h (h.makeDirectory habove mode) (h.isDirectory_eq habove)

/-- Making a directory and those above it ends alike, also when it fails half-way. -/
theorem makeDirectories (h : d.AgreeAlong path e) (habove : Path.Above above path) (mode : Nat) :
    (d.makeDirectories above mode).1.AgreeAlong path (e.makeDirectories above mode).1 ∧
      (d.makeDirectories above mode).2 = (e.makeDirectories above mode).2 :=
  sameResult_makeDirectoriesWithin (P := fun p => Path.Above p path) (fun h => h.of_parent?)
    (fun habove h => AgreeAlong.ensureDirectory h habove mode) habove h _

/-! ### Files -/

theorem createNew (h : d.AgreeAlong path e) (mode : Nat) :
    SameResult (AgreeAlong path) (d.createNew path mode) (e.createNew path mode) := by
  unfold Disk.createNew
  rw [h.locate_eq (.refl path)]
  cases hlocate : e.locate path with
  | error fault => exact .error fault
  | ok target =>
    have hnode := h.find?_eq hlocate
    cases target with
    | directory location => exact .error _
    | entry parent name slash =>
      simp only [Target.location] at hnode
      dsimp only
      rw [hnode, h.newMode_eq]
      split
      · exact .error _
      · split
        · exact .error _
        · exact .ok (h.put _ _)

theorem writeAt (h : d.AgreeAlong path e) (offset : Nat) (bytes : List UInt8) :
    SameResult (AgreeAlong path) (d.writeAt path offset bytes) (e.writeAt path offset bytes) := by
  unfold Disk.writeAt
  rw [h.locate_eq (.refl path)]
  cases hlocate : e.locate path with
  | error fault => exact .error fault
  | ok target =>
    dsimp only
    rw [h.find?_eq hlocate]
    split
    · exact .error _
    · exact .error _
    · exact .ok (h.put _ _)

theorem remove (h : d.AgreeAlong path e) :
    SameResult (AgreeAlong path) (d.remove path) (e.remove path) := by
  unfold Disk.remove
  rw [h.locate_eq (.refl path)]
  cases hlocate : e.locate path with
  | error fault => exact .error fault
  | ok target =>
    have hnode := h.find?_eq hlocate
    cases target with
    | directory location => exact .error _
    | entry parent name slash =>
      simp only [Target.location] at hnode
      dsimp only
      rw [hnode]
      split
      · exact .error _
      · exact .error _
      · split
        · exact .error _
        · exact .ok (h.erase _)

end AgreeAlong

end Disk

end Keyring
