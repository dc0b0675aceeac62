import Keyring.Proofs.Ciphertext.RoundTrip
import Keyring.Proofs.KeyFile.Effects
import Mathlib.Logic.Function.Basic

/-!
# Several makings of one key file

Any number of makings of the file at one path, whose calls come in any order, any of which may fail,
and which may stop at any point. A file is changed by opening it for writing, and from then on by
the makings that have opened it. A making that may not replace a file, and finds one when it looks,
opens none.

- `Makings`, `step`, `run`: the makings, their next calls, and those that have opened the file;
- `Blend`: bytes that come from some contents;
- `Sound`, `sound_step`, `sound_run`: what stands in the file after any calls;
- `Makings.keeps_found`: when the file before is kept and what stands in its place otherwise;
- `loses_unseen`: a file that is not found, or may be replaced, can be lost.
-/

namespace Keyring.KeyFile

/-- The digits of a key take 64 bytes. -/
theorem length_content (key : Cipher.Key) : (content key).length = 64 := by
  have hdigit : ∀ n < 16, (Text.Hex.digit n).utf8Size = 1 := by decide
  have hone : ∀ c ∈ Text.Hex.encode key.bytes, c.utf8Size = 1 := by
    intro c hc
    obtain ⟨b, -, hb⟩ := List.mem_flatMap.1 hc
    have hlow := b.toNat_lt
    rcases List.mem_pair.1 hb with rfl | rfl
    · exact hdigit _ (by omega)
    · exact hdigit _ (by omega)
  rw [content, Text.Utf8.length_encode_of_ascii hone, Text.Hex.length_encode, key.length_eq]

/-- Makings of one key file, by one program or several. -/
structure Makings (ι : Type) where
  /-- The disk that they share. -/
  disk : Disk
  /-- How far each of them is. -/
  calls : ι → Generation
  /-- Those that have opened the file, the last one first. -/
  opened : List ι

/-- A stage that a making reaches by opening the file. -/
def Stage.IsPast : Stage → Prop
  | .write _ | .restrict | .finished (.ok ()) => True
  | _ => False

/-- A making goes from opening the file to writing it. -/
def Generation.opens (g next : Generation) : Bool :=
  match g.stage, next.stage with
  | .openFile, .write _ => true
  | _, _ => false

/-- Bytes of some contents, each from where it stands there, or zero. -/
structure Blend (contents : List (List UInt8)) (bytes : List UInt8) : Prop where
  length_le : bytes.length ≤ 64
  byte : ∀ (n : Nat) (byte : UInt8), bytes[n]? = some byte →
    byte = 0 ∨ ∃ content ∈ contents, content[n]? = some byte

/-- What is written into a blend from one of the contents leaves a blend. -/
theorem Blend.overwrite {contents : List (List UInt8)} {bytes content : List UInt8}
    (h : Blend contents bytes) (hmem : content ∈ contents) (hsize : content.length = 64)
    {written : Nat} (hwritten : written ≤ 64) (limit : Nat) :
    Blend contents (Disk.overwrite bytes written ((content.drop written).take limit)) where
  length_le := by
    have hbytes := h.length_le
    rw [Disk.length_overwrite, List.length_take, List.length_drop, hsize]
    omega
  byte n byte hbyte := by
    rcases Disk.getElem?_overwrite hbyte with ⟨hle, hnew⟩ | hold | hzero
    · rw [List.getElem?_take] at hnew
      split at hnew
      · rw [List.getElem?_drop, Nat.add_sub_cancel' hle] at hnew
        exact .inr ⟨content, hmem, hnew⟩
      · cases hnew
    · exact h.byte n byte hold
    · exact .inl hzero

namespace Makings

variable {ι : Type}

/-- Makings that have not begun. -/
def start (d : Disk) (home : Option String) (path : String) (overwrite : ι → Bool)
    (key : ι → Cipher.Key) : Makings ι :=
  ⟨d, fun i => .start home path (overwrite i) (key i), []⟩

variable {d e : Disk} {m : Makings ι} {path : String} {contents : ι → List UInt8} {i j : ι}
  {stage : Stage} {reply : Disk.Reply}

/-! ### What stands in the file -/

/-- One of the makings of the file at a path, which may have opened it. -/
structure Fits (path : String) (content : List UInt8) (opened : Prop) (g : Generation) : Prop where
  path_eq : g.path = path
  content_eq : g.content = content
  written : ∀ w, g.stage = .write w → w ≤ 64
  /-- One that is past opening the file has opened it. -/
  past : g.stage.IsPast → opened
  /-- One that has opened it is past that, or has failed. -/
  stopped : opened → g.stage.IsPast ∨ ∃ error, g.stage = .finished (.error error)

/-- What is known of makings of the file at a path that began on a disk. -/
structure Sound (d : Disk) (path : String) (contents : ι → List UInt8) (m : Makings ι) : Prop where
  size : ∀ i, (contents i).length = 64
  calls : ∀ i, Fits path (contents i) (i ∈ m.opened) (m.calls i)
  touches : d.Touches path m.disk
  /-- The file is as before as long as none has opened it. -/
  unopened : m.opened = [] →
    m.disk.contentAt? (d.endOf path) = d.contentAt? (d.endOf path)
  /-- The path leads to the file that was opened. -/
  leads : m.opened ≠ [] → ∃ parent name, m.disk.locate path = .ok (.entry parent name false)
  /-- The file that was opened holds bytes of those that have opened it. -/
  blend : m.opened ≠ [] → ∃ bytes, m.disk.contentAt? (d.endOf path) = some bytes ∧
    Blend (m.opened.map contents) bytes
  /-- If one alone has opened it, it holds what that one has written. -/
  alone : ∀ i, m.opened = [i] → ∃ written,
    m.disk.contentAt? (d.endOf path) = some ((contents i).take written) ∧
      (∀ w, (m.calls i).stage = .write w → w = written) ∧
      ((m.calls i).stage = .restrict ∨ (m.calls i).stage = .finished (.ok ()) → 64 ≤ written)

/-- The file that was opened holds a blend. -/
theorem Sound.blend_of_find? (h : Sound d path contents m) (hne : m.opened ≠ []) {mode : Nat}
    {bytes : List UInt8}
    (hfile : m.disk.find? (m.disk.endOf path) = some (.file mode bytes)) :
    Blend (m.opened.map contents) bytes := by
  obtain ⟨bytes', hbytes, hblend⟩ := h.blend hne
  rw [← h.touches.endOf_eq, Disk.contentAt?, hfile] at hbytes
  exact Option.some.inj hbytes ▸ hblend

/-- One that has not ended is past opening the file if it has opened it. -/
theorem Fits.not_opened {content : List UInt8} {opened : Prop} {g : Generation}
    (h : Fits path content opened g) (hstage : g.stage = stage) (hpast : ¬stage.IsPast)
    (hmore : ∀ result, stage ≠ .finished result) : ¬opened := by
  subst hstage
  intro hopened
  rcases h.stopped hopened with hover | ⟨error, hover⟩
  · exact hpast hover
  · exact hmore _ hover

/-- A path exists once the file at it was opened. -/
theorem Sound.pathExists (h : Sound d path contents m) (hne : m.opened ≠ []) :
    m.disk.pathExists path = true := by
  obtain ⟨parent, name, hlocate⟩ := h.leads hne
  obtain ⟨bytes, hfile, -⟩ := h.blend hne
  rw [← h.touches.endOf_eq] at hfile
  exact Disk.pathExists_of_locate hlocate hfile

/-- Makings that have not begun. -/
theorem sound_start (d : Disk) (home : Option String) (path : String) (overwrite : ι → Bool)
    (key : ι → Cipher.Key) :
    Sound d (Path.expandHome home path) (fun i => content (key i))
      (start d home path overwrite key) where
  size i := length_content (key i)
  calls i := ⟨rfl, rfl, by simp [start, Generation.start], False.elim,
    fun h => absurd h List.not_mem_nil⟩
  touches := .refl _ d
  unopened _ := rfl
  leads hne := absurd rfl hne
  blend hne := absurd rfl hne
  alone i hi := by cases hi

/-! ### Calls -/

variable [DecidableEq ι]

/-- One of the makings makes its next call. -/
def step (m : Makings ι) (i : ι) (reply : Disk.Reply) : Makings ι where
  disk := ((m.calls i).step m.disk reply).1
  calls := Function.update m.calls i ((m.calls i).step m.disk reply).2
  opened :=
    if (m.calls i).opens ((m.calls i).step m.disk reply).2 then i :: m.opened else m.opened

/-- The makings make calls in some order. -/
def run (m : Makings ι) : List (ι × Disk.Reply) → Makings ι
  | [] => m
  | (i, reply) :: calls => (m.step i reply).run calls

/-- One of the makings goes on, and the others stay where they are. -/
theorem Sound.fits_update (h : Sound d path contents m) {opened : List ι}
    (hothers : ∀ j ≠ i, j ∈ opened ↔ j ∈ m.opened)
    (hwritten : ∀ w, stage = .write w → w ≤ 64) (hpast : stage.IsPast → i ∈ opened)
    (hover : i ∈ opened → stage.IsPast ∨ ∃ error, stage = .finished (.error error)) (j : ι) :
    Fits path (contents j) (j ∈ opened)
      (Function.update m.calls i ((m.calls i).goTo stage) j) := by
  by_cases hj : j = i
  · subst hj
    rw [Function.update_self]
    exact ⟨(h.calls j).path_eq, (h.calls j).content_eq, hwritten, hpast, hover⟩
  · rw [Function.update_of_ne hj, hothers j hj]
    exact h.calls j

/-- A call that opens nothing and writes nothing keeps what is known. -/
theorem Sound.quiet (h : Sound d path contents m) (hmakes : m.disk.MakesAlong path e)
    (hpast : ¬stage.IsPast)
    (hopened : i ∈ m.opened → ∃ error, stage = .finished (.error error)) :
    Sound d path contents
      ⟨e, Function.update m.calls i ((m.calls i).goTo stage), m.opened⟩ where
  size := h.size
  calls := by
    refine h.fits_update (fun j _ => Iff.rfl) ?_ (absurd · hpast) fun hmem => .inr (hopened hmem)
    rintro w rfl
    exact absurd trivial hpast
  touches := h.touches.trans hmakes.touches
  unopened hnone := (hmakes.contentAt?_eq _).trans (h.unopened hnone)
  leads hsome := by
    obtain ⟨parent, name, hlocate⟩ := h.leads hsome
    exact ⟨parent, name, hmakes.touches.grows.locate hlocate⟩
  blend hsome := by
    obtain ⟨bytes, hfile, hblend⟩ := h.blend hsome
    exact ⟨bytes, (hmakes.contentAt?_eq _).trans hfile, hblend⟩
  alone j hj := by
    replace hj : m.opened = [j] := hj
    obtain ⟨written, hfile, hwrite, hwhole⟩ := h.alone j hj
    refine ⟨written, (hmakes.contentAt?_eq _).trans hfile, ?_⟩
    by_cases heq : j = i
    · subst heq
      obtain ⟨error, rfl⟩ := hopened (by simp [hj])
      simp
    · dsimp only
      rw [Function.update_of_ne heq]
      exact ⟨hwrite, hwhole⟩

/-- The file is put where the path ends by one that has opened it. -/
theorem Sound.put (h : Sound d path contents m) {opened : List ι} {mode : Nat} {bytes : List UInt8}
    (hold : ∀ mode, m.disk.find? (m.disk.endOf path) ≠ some (.directory mode))
    (hlocate : ∃ parent name, m.disk.locate path = .ok (.entry parent name false))
    (hopened : opened = m.opened ∧ i ∈ m.opened ∨ opened = i :: m.opened) (hpast : stage.IsPast)
    (hwritten : ∀ w, stage = .write w → w ≤ 64) (hblend : Blend (opened.map contents) bytes)
    (halone : opened = [i] → ∃ written, bytes = (contents i).take written ∧
      (∀ w, stage = .write w → w = written) ∧
      (stage = .restrict ∨ stage = .finished (.ok ()) → 64 ≤ written)) :
    Sound d path contents
      ⟨m.disk.put (m.disk.endOf path) (.file mode bytes),
        Function.update m.calls i ((m.calls i).goTo stage), opened⟩ where
  size := h.size
  calls := by
    refine h.fits_update (fun j hj => ?_) hwritten (fun _ => ?_) fun _ => .inl hpast
    · rcases hopened with ⟨rfl, -⟩ | rfl
      · rfl
      · simp [hj]
    · rcases hopened with ⟨rfl, hmem⟩ | rfl
      · exact hmem
      · exact List.mem_cons_self
  touches := h.touches.trans (Disk.touches_put hold mode bytes)
  unopened hnone := by
    rcases hopened with ⟨rfl, hmem⟩ | rfl
    · exact absurd (hnone ▸ hmem) List.not_mem_nil
    · cases hnone
  leads _ := by
    obtain ⟨parent, name, hlocate⟩ := hlocate
    exact ⟨parent, name, (Disk.touches_put hold mode bytes).grows.locate hlocate⟩
  blend _ := by
    refine ⟨bytes, ?_, hblend⟩
    rw [← h.touches.endOf_eq, Disk.contentAt?, Disk.find?_put_self hold]
  alone j hj := by
    have hij : j = i := by
      rcases hopened with ⟨rfl, hmem⟩ | rfl
      · exact (List.mem_singleton.1 (hj ▸ hmem)).symm
      · exact (List.cons.inj hj).1.symm
    subst hij
    obtain ⟨written, rfl, hwrite, hwhole⟩ := halone hj
    refine ⟨written, ?_, by simpa using hwrite, by simpa using hwhole⟩
    rw [← h.touches.endOf_eq, Disk.contentAt?, Disk.find?_put_self hold]

/-- Each call of one of the makings keeps what is known. -/
theorem sound_step (h : Sound d path contents m) (i : ι) (reply : Disk.Reply) :
    Sound d path contents (m.step i reply) := by
  have hfits := h.calls i
  obtain ⟨hpath, hcontent, hwritten, hpast, hover⟩ := h.calls i
  obtain ⟨stage, hstage⟩ := Generation.exists_goTo_step m.disk (m.calls i) reply
  have heffect := Generation.effect_step m.disk (m.calls i) reply
  unfold step
  rw [hstage] at heffect ⊢
  generalize ((m.calls i).step m.disk reply).1 = e at heffect ⊢
  rw [Generation.stage_goTo] at heffect
  -- only a call that opens the file leads from there to writing
  have hopens (hne : (m.calls i).stage ≠ .openFile ∨ ¬stage.IsPast) :
      (m.calls i).opens ((m.calls i).goTo stage) = false := by
    unfold Generation.opens
    split
    case h_1 hopen hwrite =>
      rcases hne with hne | hne
      · exact absurd hopen hne
      · exact absurd (hwrite ▸ trivial : ((m.calls i).goTo stage).stage.IsPast) hne
    case h_2 => rfl
  cases heffect with
  | ended result hdone =>
    rw [hopens (.inl (by simp [hdone])), if_neg Bool.false_ne_true]
    have hsame : (m.calls i).goTo (.finished result) = m.calls i := by
      rw [Generation.goTo, ← hdone]
    rw [hsame, Function.update_eq_self]
    exact h
  | looked hlook =>
    rw [hopens (.inr id), if_neg Bool.false_ne_true]
    exact h.quiet (.refl _ _) id fun hmem =>
      absurd hmem (hfits.not_opened hlook id (by simp))
  | refused hlook =>
    rw [hopens (.inr id), if_neg Bool.false_ne_true]
    exact h.quiet (.refl _ _) id fun _ => ⟨_, rfl⟩
  | failed fault hmore =>
    rw [hopens (.inr id), if_neg Bool.false_ne_true]
    exact h.quiet (.refl _ _) id fun _ => ⟨_, rfl⟩
  | parents hparents hmakes hnext =>
    have hquiet : ¬stage.IsPast := by
      rcases hnext with rfl | ⟨fault, rfl⟩
      · exact id
      · exact id
    rw [hopens (.inr hquiet), if_neg Bool.false_ne_true]
    exact h.quiet (hpath ▸ hmakes) hquiet fun hmem =>
      absurd hmem (hfits.not_opened hparents id (by simp))
  | opened hopen hfile =>
    have htrue : (m.calls i).opens ((m.calls i).goTo (.write 0)) = true := by
      simp [Generation.opens, hopen]
    rw [htrue, if_pos rfl]
    rw [hpath] at hfile
    obtain ⟨hlocate, hold, rfl⟩ := Disk.exists_put_of_createOrTruncate hfile
    refine h.put hold hlocate (.inr rfl) trivial ?_ ⟨by simp, by simp⟩ fun _ =>
      ⟨0, rfl, ?_, by simp⟩
    · rintro w hw
      exact (Stage.write.inj hw) ▸ Nat.zero_le _
    · rintro w hw
      exact (Stage.write.inj hw).symm
  | wrote written limit hwrite hfile =>
    have hmem : i ∈ m.opened := hpast (hwrite ▸ trivial)
    have hle : written ≤ 64 := hwritten written hwrite
    rw [hopens (.inl (by simp [hwrite])), if_neg Bool.false_ne_true]
    rw [hpath, hcontent] at hfile
    obtain ⟨mode, bytes, hnode, rfl⟩ := Disk.exists_put_of_writeAt hfile
    have hold : ∀ m', m.disk.find? (m.disk.endOf path) ≠ some (.directory m') := by
      simp [hnode]
    have hne := List.ne_nil_of_mem hmem
    refine h.put hold (h.leads hne) (.inl ⟨rfl, hmem⟩) ?_ ?_
      ((h.blend_of_find? hne hnode).overwrite (List.mem_map_of_mem hmem) (h.size i) hle
        (limit + 1)) ?_
    · split <;> trivial
    · rw [hcontent, h.size]
      intro w hw
      split at hw
      · cases hw
        omega
      · cases hw
    · intro hone
      obtain ⟨part, hpart, hpartwrite, -⟩ := h.alone i hone
      obtain rfl := hpartwrite written hwrite
      rw [← h.touches.endOf_eq, Disk.contentAt?, hnode] at hpart
      obtain rfl := Option.some.inj hpart
      refine ⟨written + (limit + 1), Disk.overwrite_take _ (by rw [h.size]; exact hle) _, ?_, ?_⟩
      · intro w hw
        split at hw
        · exact (Stage.write.inj hw).symm
        · cases hw
      · rw [hcontent, h.size]
        split
        · simp
        · omega
  | restricted hrestrict hfile =>
    have hmem : i ∈ m.opened := hpast (hrestrict ▸ trivial)
    have hne := List.ne_nil_of_mem hmem
    rw [hopens (.inl (by simp [hrestrict])), if_neg Bool.false_ne_true]
    rw [hpath] at hfile
    -- the path still leads to the file that was opened
    obtain ⟨bytes, hbytes, -⟩ := h.blend hne
    obtain ⟨mode, hnode⟩ := Disk.exists_file_of_contentAt? hbytes
    rw [← h.touches.endOf_eq] at hnode
    have hold : ∀ m', m.disk.find? (m.disk.endOf path) ≠ some (.directory m') := by
      simp [hnode]
    obtain ⟨mode', bytes', hnode', rfl⟩ := Disk.exists_put_of_setMode hfile hold
    refine h.put hold (h.leads hne) (.inl ⟨rfl, hmem⟩) trivial (by simp)
      (h.blend_of_find? hne hnode') fun hone => ?_
    obtain ⟨part, hpart, -, hwhole⟩ := h.alone i hone
    rw [← h.touches.endOf_eq, Disk.contentAt?, hnode'] at hpart
    exact ⟨part, Option.some.inj hpart, by simp, fun _ => hwhole (.inl hrestrict)⟩

/-- What is known is known after any calls. -/
theorem sound_run (h : Sound d path contents m) (calls : List (ι × Disk.Reply)) :
    Sound d path contents (m.run calls) := by
  induction calls generalizing m with
  | nil => exact h
  | cons call calls ih => exact ih (sound_step h call.1 call.2)

/-- One that has ended makes no more calls. -/
theorem step_of_finished {result : Except Error Unit} (h : (m.calls i).stage = .finished result)
    (reply : Disk.Reply) : m.step i reply = m := by
  have hstep : (m.calls i).step m.disk reply = (m.disk, m.calls i) := by
    simp only [Generation.step, h]
  rw [step, hstep]
  simp [Generation.opens, h]

/-- One that has ended stays so, and opens nothing. -/
theorem run_of_finished {result : Except Error Unit} (h : (m.calls i).stage = .finished result)
    (calls : List (ι × Disk.Reply)) :
    (m.run calls).calls i = m.calls i ∧ (i ∈ (m.run calls).opened ↔ i ∈ m.opened) := by
  induction calls generalizing m with
  | nil => exact ⟨rfl, Iff.rfl⟩
  | cons call calls ih =>
    obtain ⟨j, reply⟩ := call
    by_cases hj : i = j
    · subst hj
      rw [run, step_of_finished h]
      exact ih h
    · have hsame : (m.step j reply).calls i = m.calls i := Function.update_of_ne hj _ _
      have hopened : i ∈ (m.step j reply).opened ↔ i ∈ m.opened := by
        simp only [step]
        split
        · simp [hj]
        · rfl
      obtain ⟨hcalls, hmem⟩ := ih (hsame ▸ h)
      exact ⟨hcalls.trans hsame, hmem.trans hopened⟩

/-- One that may not replace a file, and sees one, ends. -/
theorem calls_step_of_look (hlook : (m.calls i).stage = .look)
    (hflag : (m.calls i).overwrite = false)
    (hexists : m.disk.pathExists (m.calls i).path = true) (limit : Nat) :
    (m.step i (.accept limit)).calls i = (m.calls i).refuse ∧
      (m.step i (.accept limit)).opened = m.opened := by
  have hstep : (m.calls i).step m.disk (.accept limit) = (m.disk, (m.calls i).refuse) := by
    simp [Generation.step, hlook, hexists, hflag]
  rw [step, hstep]
  simp [Generation.opens, hlook]

/-- The flags stay as they are. -/
theorem overwrite_run (m : Makings ι) (calls : List (ι × Disk.Reply)) (i : ι) :
    ((m.run calls).calls i).overwrite = (m.calls i).overwrite := by
  induction calls generalizing m with
  | nil => rfl
  | cons call calls ih =>
    obtain ⟨j, reply⟩ := call
    rw [run, ih]
    by_cases hj : i = j
    · subst hj
      obtain ⟨stage, hstage⟩ := Generation.exists_goTo_step m.disk (m.calls i) reply
      simp only [step, hstage, Function.update_self]
      rfl
    · simp only [step, Function.update_of_ne hj]

/-- **What an existing key file is safe from.** Any number of makings of the file at a path make any
calls in any order, which the device may take or not. No other file changes. The file keeps its
content as long as none of them has opened it. From then on its bytes are those of keys of makings
that have opened it, or zero; if one alone has opened it, they are what that one has written, and
the whole key when it has ended well, which only one can that has opened it. One that may not
replace a file and looks when it exists, and so one that looks when another has opened it, ends with
the error that it exists, opens nothing and changes nothing. -/
theorem keeps_found (d : Disk) (home : Option String) (path : String) (overwrite : ι → Bool)
    (key : ι → Cipher.Key) (calls : List (ι × Disk.Reply)) :
    let path' := Path.expandHome home path
    let place := d.endOf path'
    let m := (start d home path overwrite key).run calls
    (∀ other ≠ place, m.disk.contentAt? other = d.contentAt? other) ∧
    (m.opened = [] → m.disk.contentAt? place = d.contentAt? place) ∧
    (m.opened ≠ [] → ∃ bytes, m.disk.contentAt? place = some bytes ∧
      Blend (m.opened.map fun i => content (key i)) bytes) ∧
    (∀ i, m.opened = [i] →
      (∃ written, m.disk.contentAt? place = some ((content (key i)).take written) ∧
        ∀ w, (m.calls i).stage = .write w → w = written) ∧
      ((m.calls i).stage = .restrict ∨ (m.calls i).stage = .finished (.ok ()) →
        m.disk.contentAt? place = some (content (key i)))) ∧
    (∀ i, (m.calls i).stage = .finished (.ok ()) → i ∈ m.opened) ∧
    (∀ i limit later, (m.calls i).stage = .look → overwrite i = false →
      m.disk.pathExists path' = true ∨ m.opened ≠ [] →
      let last := (m.step i (.accept limit)).run later
      i ∉ last.opened ∧ (∀ reply, last.step i reply = last) ∧
        (last.calls i).stage = .finished (.error (.invalidConfig
          ("Key file already exists: " ++ path' ++ ". Use --force to overwrite")))) := by
  intro path' place m
  have hsound : Sound d path' (fun i => content (key i)) m :=
    sound_run (sound_start d home path overwrite key) calls
  refine ⟨fun other hne => hsound.touches.contentAt?_of_ne hne, hsound.unopened, hsound.blend,
    fun i hone => ?_, fun i hdone => (hsound.calls i).past (hdone ▸ trivial),
    fun i limit later hlook hflag hfound => ?_⟩
  · obtain ⟨written, hfile, hwrite, hwhole⟩ := hsound.alone i hone
    refine ⟨⟨written, hfile, hwrite⟩, fun hdone => ?_⟩
    rw [hfile, List.take_of_length_le (by rw [length_content]; exact hwhole hdone)]
  · intro last
    have hexists : m.disk.pathExists (m.calls i).path = true := by
      rw [(hsound.calls i).path_eq]
      exact hfound.elim id hsound.pathExists
    have hflag' : (m.calls i).overwrite = false := (overwrite_run _ calls i).trans hflag
    obtain ⟨hrefused, hopened⟩ := calls_step_of_look hlook hflag' hexists limit
    have hdone : ((m.step i (.accept limit)).calls i).stage = .finished (.error (.invalidConfig
        ("Key file already exists: " ++ path' ++ ". Use --force to overwrite"))) := by
      rw [hrefused, ← (hsound.calls i).path_eq]
      rfl
    obtain ⟨hcalls, hmem⟩ := run_of_finished hdone later
    have hstage : (last.calls i).stage = _ := (congrArg Generation.stage hcalls).trans hdone
    refine ⟨fun hi => ?_, fun reply => step_of_finished hstage reply, hstage⟩
    -- it was about to look, so it had not opened the file before
    exact (hsound.calls i).not_opened hlook id (by simp) (hopened ▸ hmem.1 hi)

/-- One making replaces a file; another one, which may not, looks when it is open. -/
theorem keeps_found_whileReplaced :
    let key : Cipher.Key := ⟨List.replicate 32 0x5a, rfl⟩
    let d := (Disk.empty [] 0).put ["k"] (.file 0o600 [1])
    let opening : List (Bool × Disk.Reply) :=
      [(true, .accept 0), (true, .accept 0), (true, .accept 0)]
    let m := (start d none "k" id fun _ => key).run opening
    let last := (m.step false (.accept 0)).run [(true, .accept 63), (true, .accept 0)]
    last.opened = [true] ∧ last.disk.contentAt? ["k"] = some (content key) ∧
      ∀ reply, last.step false reply = last := by
  intro key d opening m last
  have hopened : last.opened = [true] := by decide +kernel
  have hdone : (last.calls true).stage = .finished (.ok ()) := by
    have hremaining : (last.calls true).remaining = 0 := by decide +kernel
    have hresult : (last.calls true).result = .ok () := by decide +kernel
    rw [Generation.stage_of_remaining hremaining, hresult]
  have hplace : d.endOf (Path.expandHome none "k") = ["k"] := by decide +kernel
  have hlast : (start d none "k" id fun _ => key).run
      (opening ++ [(false, .accept 0), (true, .accept 63), (true, .accept 0)]) = last := rfl
  obtain ⟨-, -, -, halone, -⟩ := keeps_found d none "k" id (fun _ => key)
    (opening ++ [(false, .accept 0), (true, .accept 63), (true, .accept 0)])
  rw [hplace, hlast] at halone
  obtain ⟨-, -, -, -, -, hrefuses⟩ := keeps_found d none "k" id (fun _ => key) opening
  have hfound : m.opened ≠ [] := by decide +kernel
  obtain ⟨-, hstays, -⟩ := hrefuses false 0 [(true, .accept 63), (true, .accept 0)] rfl rfl
    (.inr hfound)
  have hwhole : last.disk.contentAt? ["k"] = some (content key) :=
    (halone true hopened).2 (.inr hdone)
  exact ⟨hopened, hwhole, hstays⟩

/-- A making that may not replace a file looks for it first and opens it later, and whatever is
there then is replaced. So a key file is lost that the path does not lead to when such a making
looks; of two that look before either has opened the file both end well, and the key of the first is
lost. And a making that may replace the file leaves an empty one when the device takes no byte of
its key. -/
theorem loses_unseen :
    let old : Cipher.Key := ⟨List.replicate 32 0x11, rfl⟩
    let new : Bool → Cipher.Key := fun i => ⟨List.replicate 32 (if i then 0x5a else 0xa5), rfl⟩
    let d := (Disk.empty [] 0).put ["k"] (.file 0o600 (content old))
    let all (i : Bool) : List (Bool × Disk.Reply) :=
      [(i, .accept 0), (i, .accept 0), (i, .accept 63), (i, .accept 0)]
    let through := (start d none "x/../k" (fun _ => false) new).run ((true, .accept 0) :: all true)
    let both := (start (Disk.empty [] 0) none "k" (fun _ => false) new).run
      ((false, .accept 0) :: (true, .accept 0) :: all false ++ all true)
    let cut := (start d none "k" (fun _ => true) new).run
      [(true, .accept 0), (true, .accept 0), (true, .accept 0), (true, .refuse .writeRefused)]
    ((through.calls true).result = .ok () ∧ (through.calls true).remaining = 0 ∧
      d.contentAt? (d.endOf "x/../k") = some (content old) ∧
      through.disk.contentAt? (d.endOf "x/../k") = some (content (new true))) ∧
    ((∀ i, (both.calls i).result = .ok () ∧ (both.calls i).remaining = 0) ∧
      both.disk.contentAt? ["k"] = some (content (new true)) ∧ new false ≠ new true) ∧
    (cut.calls true).result = .error (.io .writeRefused) ∧
      cut.disk.contentAt? ["k"] = some [] := by
  decide +kernel

end Makings

end Keyring.KeyFile
