import Keyring.Proofs.Disk.Contents
import Mathlib.Data.List.Infix

/-!
# Where directories come to stand

A directory is made together with those above it, so directories come to stand at places that its
path leads through, and nowhere else. A path may lead through the place of a key's file, and back.

- `Disk.Passes`: the places that a path leads through;
- `Path.parts_parent?`: the path of the directory above is the front of a path;
- `Path.Above`: a path leads through all the places that another one leads through;
- `Disk.MakesAlong`, `Disk.makesAlong_makeDirectories`: what is made are directories that stand
  there, and nothing else is changed;
- `Disk.Free`: a place for the file of a key that no directory can take.
-/

namespace Keyring

namespace Path

variable {path parent : String}

/-- What is trimmed off after a slash begins with a slash. -/
theorem exists_trimReversed (s : List Char) :
    ∃ front, '/' :: s = front ++ '/' :: trimReversed s := by
  induction hn : s.length using Nat.strongRecOn generalizing s with
  | _ n ih =>
    unfold trimReversed
    split
    case h_1 rest =>
      have hlt : rest.length < n := by
        rw [← hn, List.length_cons]
        omega
      obtain ⟨front, hfront⟩ := ih rest.length hlt rest rfl
      exact ⟨'/' :: front, by rw [hfront, List.cons_append]⟩
    case h_2 rest =>
      -- the dot and the slash before it go together
      have hlt : rest.length < n := by
        rw [← hn, List.length_cons, List.length_cons]
        omega
      obtain ⟨front, hfront⟩ := ih rest.length hlt rest rfl
      refine ⟨'/' :: '.' :: front, ?_⟩
      rw [trimReversed.eq_1, List.cons_append, List.cons_append, ← hfront]
    case h_3 => exact ⟨[], rfl⟩

/-- The path of the directory above is the root or empty, or the front of a path before a slash. -/
theorem parent?_cases (h : parent? path = some parent) :
    parent = (if isAbsolute path then "/" else "") ∨
      parent ≠ "" ∧ ∃ tail, path.toList = parent.toList ++ '/' :: tail := by
  unfold parent? at h
  dsimp only at h
  generalize hbody : trimReversed path.toList.reverse = body at h
  split at h
  case isTrue => cases h
  case isFalse =>
    split at h
    case isTrue => exact .inl (Option.some.inj h).symm
    case isFalse hrest =>
      obtain rfl := Option.some.inj h
      refine .inr ⟨by simpa [← String.toList_eq_nil_iff] using hrest, ?_⟩
      -- the path is the body and what is trimmed off, and the body breaks at its last slash
      obtain ⟨trimmed, htrimmed⟩ : ∃ trimmed, path.toList.reverse = trimmed ++ body := by
        obtain ⟨front, hfront⟩ := exists_trimReversed path.toList.reverse
        rw [hbody] at hfront
        cases front with
        | nil => exact ⟨[], List.cons_inj_right _ |>.1 hfront⟩
        | cons c front => exact ⟨front ++ ['/'], by simpa using (List.cons.inj hfront).2⟩
      cases hdrop : body.dropWhile (· ≠ '/') with
      | nil =>
        rw [hdrop] at hrest
        exact absurd rfl hrest
      | cons c rest =>
        have hc : c = '/' := by
          have hhead := List.head?_dropWhile_not (· ≠ '/') body
          rw [hdrop] at hhead
          simpa using hhead
        subst hc
        obtain ⟨front, hfront⟩ := exists_trimReversed rest
        refine ⟨(trimmed ++ body.takeWhile (· ≠ '/') ++ front).reverse, ?_⟩
        have hpath : path.toList.reverse =
            trimmed ++ body.takeWhile (· ≠ '/') ++ front ++ '/' :: trimReversed rest := by
          rw [htrimmed, List.append_assoc _ front, ← hfront, ← hdrop, List.append_assoc,
            List.takeWhile_append_dropWhile]
        rw [trimReversed, String.toList_ofList]
        simpa using congrArg List.reverse hpath

theorem parts_eq (path : String) (a b : List Char) (h : path.toList = a ++ '/' :: b) :
    parts path = parts (String.ofList a) ++ parts (String.ofList b) := by
  unfold parts
  rw [h, segments_append_slash, List.filter_append, List.map_append, String.toList_ofList,
    String.toList_ofList]

/-- A path leads through the directory above it, and starts where that one does. -/
theorem parts_parent? (h : parent? path = some parent) :
    parts parent <+: parts path ∧ isAbsolute parent = isAbsolute path := by
  rcases parent?_cases h with rfl | ⟨hne, tail, htail⟩
  · split
    case isTrue habsolute => exact ⟨List.nil_prefix, habsolute.symm ▸ rfl⟩
    case isFalse habsolute => exact ⟨List.nil_prefix, (Bool.eq_false_iff.2 habsolute).symm ▸ rfl⟩
  · refine ⟨?_, ?_⟩
    · rw [parts_eq path _ tail htail, String.ofList_toList]
      exact List.prefix_append _ _
    · obtain ⟨c, cs, hcs⟩ :=
        List.exists_cons_of_ne_nil (mt String.toList_eq_nil_iff.1 hne)
      rw [isAbsolute, isAbsolute, htail, hcs]
      rfl

/-- A path is the front of another one, which leads through all the places of the first. -/
structure Above (above path : String) : Prop where
  parts : Path.parts above <+: Path.parts path
  absolute : Path.isAbsolute above = Path.isAbsolute path

@[refl] theorem Above.refl (path : String) : Above path path := ⟨List.prefix_rfl, rfl⟩

/-- The directory above a path is above all that the path is above. -/
theorem Above.of_parent? {above : String} (h : Above above path)
    (hparent : parent? above = some parent) : Above parent path := by
  obtain ⟨hparts, habsolute⟩ := parts_parent? hparent
  exact ⟨hparts.trans h.parts, habsolute.trans h.absolute⟩

/-- The directory of a store is above the files of its keys. -/
theorem above_join {directory name : String} (hvalid : KeyName.Valid name) :
    Above directory (join directory name) where
  parts := by
    rw [parts_join hvalid]
    exact List.prefix_append _ _
  absolute := (isAbsolute_join hvalid).symm

end Path

namespace Disk

variable {d e : Disk} {path above : String} {location place : Location} {mode : Nat}
  {target : Target}

/-- The places that a path leads through, the last one included. -/
def Passes (d : Disk) (path : String) (place : Location) : Prop :=
  ∃ parts ∈ (Path.parts path).inits,
    descend (if Path.isAbsolute path then [] else d.current) parts = place

instance (d : Disk) (path : String) (place : Location) : Decidable (d.Passes path place) :=
  inferInstanceAs (Decidable (∃ parts ∈ (Path.parts path).inits, _ = _))

/-- Each directory was there before, or stands where a path leads through. -/
def AddsAlong (d e : Disk) (path : String) : Prop :=
  ∀ place mode, e.find? place = some (.directory mode) →
    d.find? place = some (.directory mode) ∨ d.Passes path place

/-- Where the parts of a path lead, if they lead anywhere. -/
theorem location_of_walk {slash : Bool} {parts : List String}
    (h : d.walk location slash parts = .ok target) : target.location = descend location parts := by
  induction parts generalizing location with
  | nil =>
    obtain rfl := Except.ok.inj h
    rfl
  | cons part parts ih =>
    cases parts with
    | nil =>
      rw [walk] at h
      split_ifs at h with hdots
      case pos =>
        cases henter : d.enter location part with
        | error fault =>
          rw [henter] at h
          cases h
        | ok l =>
          rw [henter] at h
          obtain rfl := Except.ok.inj h
          exact eq_of_enter henter
      case neg =>
        obtain rfl := Except.ok.inj h
        rw [not_or] at hdots
        simp [Target.location, descend, hdots]
    | cons next parts =>
      rw [walk.eq_3 _ _ _ _ _ (List.cons_ne_nil _ _)] at h
      cases henter : d.enter location part with
      | error fault =>
        rw [henter] at h
        cases h
      | ok l =>
        rw [henter] at h
        rw [ih h, eq_of_enter henter]
        rfl

/-- A path leads through the place that it leads to. -/
theorem passes_of_locate (h : d.locate path = .ok target) : d.Passes path target.location := by
  unfold locate at h
  split_ifs at h with hnul hempty hlong habsolute
  all_goals
    refine ⟨Path.parts path, (List.mem_inits _ _).2 List.prefix_rfl, ?_⟩
    simp [location_of_walk h, habsolute]

/-- A path leads through all the places that the paths above it lead through. -/
theorem Passes.of_above (habove : Path.Above above path) (h : d.Passes above place) :
    d.Passes path place := by
  obtain ⟨parts, hmem, hplace⟩ := h
  rw [habove.absolute] at hplace
  exact ⟨parts, (List.mem_inits _ _).2 (((List.mem_inits _ _).1 hmem).trans habove.parts), hplace⟩

/-! ### Directories that are made -/

/-- One disk is another one with more directories, all of which a path leads through. -/
structure MakesAlong (path : String) (d e : Disk) : Prop where
  current : e.current = d.current
  umask : e.umask = d.umask
  nodes : ∀ place, e.find? place = d.find? place ∨
    d.find? place = none ∧ d.Passes path place ∧ ∃ mode, e.find? place = some (.directory mode)

@[refl] theorem MakesAlong.refl (path : String) (d : Disk) : d.MakesAlong path d :=
  ⟨rfl, rfl, fun _ => .inl rfl⟩

@[trans] theorem MakesAlong.trans {f : Disk} (h : d.MakesAlong path e) (h' : e.MakesAlong path f) :
    d.MakesAlong path f where
  current := h'.current.trans h.current
  umask := h'.umask.trans h.umask
  nodes place := by
    rcases h'.nodes place with hsame' | ⟨hnone', hpasses', hmade'⟩
    · rw [hsame']
      exact h.nodes place
    · rcases h.nodes place with hsame | ⟨-, -, mode, hmade⟩
      · rw [Passes, h.current] at hpasses'
        exact .inr ⟨hsame ▸ hnone', hpasses', hmade'⟩
      · -- what was made once is not made again
        cases hnone'.symm.trans hmade

theorem makesAlong_ensureDirectory (habove : Path.Above above path)
    (h : d.ensureDirectory above mode = .ok e) : d.MakesAlong path e := by
  unfold ensureDirectory at h
  split at h
  case h_1 hmade =>
    obtain rfl := Except.ok.inj h
    unfold makeDirectory at hmade
    split at hmade
    · cases hmade
    · cases hmade
    case h_3 parent part slash hlocate =>
      split at hmade
      · cases hmade
      case h_2 hnone =>
        obtain rfl := Except.ok.inj hmade
        refine ⟨rfl, rfl, fun place => ?_⟩
        rw [find?_put (by simp)]
        split
        case isTrue heq =>
          subst heq
          exact .inr ⟨hnone, (passes_of_locate hlocate).of_above habove, _, rfl⟩
        case isFalse => exact .inl rfl
  case h_2 =>
    split at h
    · obtain rfl := Except.ok.inj h
      rfl
    · cases h

/-- Directories that are made together with those above them stand where the path leads through. -/
theorem makesAlong_makeDirectories (d : Disk) (habove : Path.Above above path) (mode : Nat) :
    d.MakesAlong path (d.makeDirectories above mode).1 :=
  rel_makeDirectoriesWithin (.refl path) .trans .of_parent? makesAlong_ensureDirectory habove _ d

theorem MakesAlong.addsAlong (h : d.MakesAlong path e) : d.AddsAlong e path := by
  intro place mode hplace
  rcases h.nodes place with hsame | ⟨-, hpasses, -⟩
  · exact .inl (hsame ▸ hplace)
  · exact .inr hpasses

/-! ### The place of a key -/

/-- No directory stands where the file of a key belongs, and the path of the directory that is to
hold it does not lead through there, so that none comes to. -/
structure Free (d : Disk) (directory name : String) : Prop where
  vacant : (d.find? (d.placeOf directory name)).any Node.isDirectory = false
  apart : ¬d.Passes directory (d.placeOf directory name)

instance (d : Disk) (directory name : String) : Decidable (d.Free directory name) :=
  decidable_of_iff ((d.find? (d.placeOf directory name)).any Node.isDirectory = false ∧
      ¬d.Passes directory (d.placeOf directory name))
    ⟨fun h => ⟨h.1, h.2⟩, fun h => ⟨h.vacant, h.apart⟩⟩

/-- A place stays free when directories are made that the store needs. -/
theorem Free.grows {directory name : String} (h : d.Free directory name) (hgrows : d.Grows e)
    (hadds : d.AddsAlong e directory) : e.Free directory name := by
  have hplace : e.placeOf directory name = d.placeOf directory name := by
    rw [placeOf, hgrows.current, placeOf]
  constructor
  · rw [hplace]
    cases hnode : e.find? (d.placeOf directory name) with
    | none => rfl
    | some node =>
      cases node with
      | file m content => rfl
      | directory m =>
        rcases hadds _ m hnode with hold | hpasses
        · have hvacant := h.vacant
          rw [hold] at hvacant
          cases hvacant
        · exact absurd hpasses h.apart
  · rw [hplace, Passes, hgrows.current]
    exact h.apart

/-- A path may lead nowhere, but what stands at its end is no reason. -/
theorem walk_ne_alreadyExists (d : Disk) (location : Location) (slash : Bool)
    (parts : List String) : d.walk location slash parts ≠ .error .alreadyExists := by
  have henter (location : Location) (part : String) :
      d.enter location part ≠ .error .alreadyExists := by
    unfold enter
    split_ifs
    case neg => split <;> simp
    all_goals simp
  induction parts generalizing location with
  | nil => simp [walk]
  | cons part parts ih =>
    cases parts with
    | nil =>
      rw [walk]
      split_ifs
      · have hpart := henter location part
        cases hl : d.enter location part with
        | error fault =>
          rw [hl] at hpart
          exact fun h => hpart (congrArg _ (Except.error.inj h))
        | ok l => simp [Except.map]
      · simp
      · simp
    | cons next parts =>
      rw [walk.eq_3 _ _ _ _ _ (List.cons_ne_nil _ _)]
      have hpart := henter location part
      split
      case h_1 fault hl =>
        rw [hl] at hpart
        exact fun h => hpart (congrArg _ (Except.error.inj h))
      case h_2 => exact ih _

/-- In a free place without a file, nothing is in the way of one. -/
theorem Free.createNew_ne {directory name : String} (h : d.Free directory name)
    (hvalid : KeyName.Valid name) (hnone : d.contentAt? (d.placeOf directory name) = none)
    (mode : Nat) : d.createNew (Path.join directory name) mode ≠ .error .alreadyExists := by
  have hempty : d.find? (d.placeOf directory name) = none := by
    have hvacant := h.vacant
    rw [contentAt?] at hnone
    cases hnode : d.find? (d.placeOf directory name) with
    | none => rfl
    | some node =>
      rw [hnode] at hnone hvacant
      cases node with
      | file m content => cases hnone
      | directory m => cases hvacant
  unfold createNew
  split
  case h_1 fault hlocate =>
    unfold locate at hlocate
    split_ifs at hlocate
    case pos | pos | pos => simp [← Except.error.inj hlocate]
    all_goals
      intro hfault
      obtain rfl := Except.error.inj hfault
      exact walk_ne_alreadyExists _ _ _ _ hlocate
  case h_2 hlocate =>
    obtain ⟨parent, hentry, -⟩ := eq_of_locate_join hvalid hlocate
    cases hentry
  case h_3 parent part slash hlocate =>
    obtain ⟨p, hentry, hplace⟩ := eq_of_locate_join hvalid hlocate
    obtain ⟨rfl, rfl, rfl⟩ := Target.entry.inj hentry
    simp [hplace, hempty]

end Disk

end Keyring
