import Keyring.Proofs.Disk.Destination
import Keyring.Proofs.KeyFile.Generation

/-!
# What the calls of a making do to the disk

Each call of the making of a key file does one thing: it looks, it makes directories, or it opens,
writes or restricts the file where the path ends. What it has done so far decides who can read the
key: the file is opened with the permission bits of the file before or of any new one, and only the
last call takes those of group and others away.

- `Effect`, `effect_step`: what one call does, and the stage that it leads to;
- `Course`, `course_step`, `course_run`: what a making has done so far;
- `modes_of_run`: which permission bits the file of the new key has, from call to call.
-/

namespace Keyring

/-- No permission bit is set for the group or for others. -/
def Disk.Secluded (mode : Nat) : Prop := mode &&& 0o077 = 0

instance (mode : Nat) : Decidable (Disk.Secluded mode) :=
  inferInstanceAs (Decidable (mode &&& 0o077 = 0))

namespace KeyFile

namespace Generation

variable {d e f : Disk} {g : Generation} {stage : Stage}

@[simp] theorem path_goTo (g : Generation) (stage : Stage) : (g.goTo stage).path = g.path := rfl

@[simp] theorem content_goTo (g : Generation) (stage : Stage) :
    (g.goTo stage).content = g.content := rfl

@[simp] theorem stage_goTo (g : Generation) (stage : Stage) : (g.goTo stage).stage = stage := rfl

/-! ### One call -/

/-- What a call of a making can do to a disk, and the stage that it leads to. -/
inductive Effect (d : Disk) (g : Generation) : Disk → Stage → Prop where
  /-- There is no call left. -/
  | ended (result : Except Error Unit) : g.stage = .finished result →
      Effect d g d (.finished result)
  /-- The file was not seen, or may be replaced. -/
  | looked : g.stage = .look → Effect d g d .makeParents
  /-- The file was seen, and may not be replaced. -/
  | refused : g.stage = .look → Effect d g d g.refuse.stage
  /-- The call failed. -/
  | failed (fault : FileFault) : (∀ result, g.stage ≠ .finished result) →
      Effect d g d (.finished (.error (.io fault)))
  /-- Directories were made, but maybe not all of them. -/
  | parents {e : Disk} {stage : Stage} : g.stage = .makeParents → d.MakesAlong g.path e →
      stage = .openFile ∨ (∃ fault, stage = .finished (.error (.io fault))) → Effect d g e stage
  /-- The file was opened and is empty. -/
  | opened {e : Disk} : g.stage = .openFile → d.createOrTruncate g.path 0o666 = .ok e →
      Effect d g e (.write 0)
  /-- Some more bytes were written. -/
  | wrote {e : Disk} (written limit : Nat) : g.stage = .write written →
      d.writeAt g.path written ((g.content.drop written).take (limit + 1)) = .ok e →
      Effect d g e (if written + (limit + 1) < g.content.length then
        .write (written + (limit + 1)) else .restrict)
  /-- The permission bits were set. -/
  | restricted {e : Disk} : g.stage = .restrict → d.setMode g.path 0o600 = .ok e →
      Effect d g e (.finished (.ok ()))

/-- Each call has one of these effects, whatever the device replies. -/
theorem effect_step (d : Disk) (g : Generation) (reply : Disk.Reply) :
    g.Effect d (g.step d reply).1 (g.step d reply).2.stage := by
  cases hstage : g.stage with
  | finished result =>
    simp only [step, hstage]
    exact .ended result hstage
  | look =>
    cases reply with
    | refuse fault =>
      simp only [step, hstage]
      exact .looked hstage
    | accept limit =>
      simp only [step, hstage]
      split
      · exact .refused hstage
      · exact .looked hstage
  | makeParents =>
    cases reply with
    | refuse fault =>
      simp only [step, hstage]
      exact .failed fault (by simp [hstage])
    | accept limit =>
      simp only [step, hstage]
      split
      case h_1 => exact .parents hstage (.refl _ _) (.inl rfl)
      case h_2 parent hparent =>
        have hmakes := Disk.makesAlong_makeDirectories d
          ((Path.Above.refl g.path).of_parent? hparent) 0o777
        split
        case h_1 fault hmade =>
          rw [hmade] at hmakes
          exact .parents hstage hmakes (.inr ⟨fault, rfl⟩)
        case h_2 hmade =>
          rw [hmade] at hmakes
          exact .parents hstage hmakes (.inl rfl)
  | openFile =>
    cases reply with
    | refuse fault =>
      simp only [step, hstage]
      exact .failed fault (by simp [hstage])
    | accept limit =>
      simp only [step, hstage]
      split
      case h_1 fault hfail => exact .failed fault (by simp [hstage])
      case h_2 e hopen => exact .opened hstage hopen
  | write written =>
    cases reply with
    | refuse fault =>
      simp only [step, hstage]
      exact .failed fault (by simp [hstage])
    | accept limit =>
      simp only [step, hstage]
      split
      case h_1 fault hfail => exact .failed fault (by simp [hstage])
      case h_2 e hwrite =>
        have heffect : g.Effect d e _ := .wrote written limit hstage hwrite
        split
        case isTrue hlt =>
          rw [if_pos hlt] at heffect
          exact heffect
        case isFalse hlast =>
          rw [if_neg hlast] at heffect
          exact heffect
  | restrict =>
    cases reply with
    | refuse fault =>
      simp only [step, hstage]
      exact .failed fault (by simp [hstage])
    | accept limit =>
      simp only [step, hstage]
      split
      case h_1 fault hfail => exact .failed fault (by simp [hstage])
      case h_2 e hmode => exact .restricted hstage hmode

/-! ### All calls so far -/

/-- What a making that began on a disk has done to it so far. -/
inductive Course (d : Disk) (g : Generation) (e : Disk) : Prop where
  /-- The file is not opened yet, or the making has ended before. -/
  | before : d.MakesAlong g.path e →
      g.stage = .look ∨ g.stage = .makeParents ∨ g.stage = .openFile ∨
        (∃ error, g.stage = .finished (.error error)) → Course d g e
  /-- The file holds the first bytes of the content, with the permission bits that it was opened
  with. What is left is to write the others or to restrict it, or a call for that has failed. -/
  | during (written : Nat) : d.Touches g.path e →
      e.find? (d.endOf g.path) =
        some (.file (d.openMode g.path 0o666) (g.content.take written)) →
      (g.stage = .write written ∧ written ≤ g.content.length) ∨
        (g.stage = .restrict ∧ g.content.length ≤ written) ∨
          (∃ fault, g.stage = .finished (.error (.io fault))) → Course d g e
  /-- The file holds the whole content, and is restricted. -/
  | after : d.Touches g.path e →
      e.find? (d.endOf g.path) = some (.file 0o600 g.content) →
      g.stage = .finished (.ok ()) → Course d g e

/-- A file that is opened when directories may have been made has the permission bits that it had,
or those that it would have got before. -/
theorem openMode_of_makesAlong (h : d.MakesAlong g.path e)
    (hold : ∀ m, e.find? (e.endOf g.path) ≠ some (.directory m)) (mode : Nat) :
    e.openMode g.path mode = d.openMode g.path mode := by
  have hplace := h.touches.endOf_eq g.path
  have hsame : e.find? (e.endOf g.path) = d.find? (d.endOf g.path) := by
    rw [hplace] at hold ⊢
    rcases h.nodes (d.endOf g.path) with hsame | ⟨-, -, m, hmade⟩
    · exact hsame
    · exact absurd hmade (hold m)
  rw [Disk.openMode, Disk.openMode, hsame, Disk.newMode, Disk.newMode, h.umask]

/-- Each call goes on from what was done before. -/
theorem Effect.course (heffect : g.Effect e f stage) (h : Course d g e) :
    Course d (g.goTo stage) f := by
  cases heffect with
  | ended result hstage =>
    have hsame : g.goTo (.finished result) = g := by rw [goTo, ← hstage]
    rwa [hsame]
  | looked hstage =>
    cases h with
    | before hmakes _ => exact .before hmakes (.inr (.inl rfl))
    | during _ _ _ hdone => simp [hstage] at hdone
    | after _ _ hdone => simp [hstage] at hdone
  | refused hstage =>
    cases h with
    | before hmakes _ => exact .before hmakes (.inr (.inr (.inr ⟨_, rfl⟩)))
    | during _ _ _ hdone => simp [hstage] at hdone
    | after _ _ hdone => simp [hstage] at hdone
  | failed fault hmore =>
    cases h with
    | before hmakes _ => exact .before hmakes (.inr (.inr (.inr ⟨_, rfl⟩)))
    | during written htouches hfile _ =>
      exact .during written htouches hfile (.inr (.inr ⟨fault, rfl⟩))
    | after _ _ hdone => exact absurd hdone (hmore _)
  | parents hstage hmade hnext =>
    cases h with
    | before hmakes _ =>
      refine .before (hmakes.trans hmade) ?_
      rcases hnext with rfl | ⟨fault, rfl⟩
      · exact .inr (.inr (.inl rfl))
      · exact .inr (.inr (.inr ⟨_, rfl⟩))
    | during _ _ _ hdone => simp [hstage] at hdone
    | after _ _ hdone => simp [hstage] at hdone
  | opened hstage hopen =>
    cases h with
    | before hmakes _ =>
      obtain ⟨-, hold, rfl⟩ := Disk.exists_put_of_createOrTruncate hopen
      have hput := Disk.touches_put hold (e.openMode g.path 0o666) []
      refine .during 0 (hmakes.touches.trans hput) ?_ (.inl ⟨rfl, Nat.zero_le _⟩)
      rw [path_goTo, ← hmakes.touches.endOf_eq, Disk.find?_put_self hold,
        openMode_of_makesAlong hmakes hold, List.take_zero]
    | during _ _ _ hdone => simp [hstage] at hdone
    | after _ _ hdone => simp [hstage] at hdone
  | wrote written limit hstage hwrite =>
    cases h with
    | before _ hdone => simp [hstage] at hdone
    | after _ _ hdone => simp [hstage] at hdone
    | during part htouches hfile hdone =>
      obtain ⟨rfl, hpart⟩ : part = written ∧ part ≤ g.content.length := by
        simpa [hstage, eq_comm] using hdone
      obtain ⟨m, content, hfile', rfl⟩ := Disk.exists_put_of_writeAt hwrite
      have hold : ∀ m, e.find? (e.endOf g.path) ≠ some (.directory m) := by simp [hfile']
      have hput := htouches.trans (Disk.touches_put hold m
        (Disk.overwrite content part ((g.content.drop part).take (limit + 1))))
      rw [htouches.endOf_eq] at hfile' hold hput
      obtain ⟨rfl, rfl⟩ := Node.file.inj (Option.some.inj (hfile.symm.trans hfile'))
      rw [htouches.endOf_eq]
      -- the device has taken some of the bytes that were left
      refine .during (part + (limit + 1)) hput ?_ ?_
      · rw [path_goTo, Disk.find?_put_self hold, Disk.overwrite_take g.content hpart, content_goTo]
      · split
        case isTrue hlt => exact .inl ⟨rfl, hlt.le⟩
        case isFalse hlast => exact .inr (.inl ⟨rfl, Nat.le_of_not_lt hlast⟩)
  | restricted hstage hmode =>
    cases h with
    | before _ hdone => simp [hstage] at hdone
    | after _ _ hdone => simp [hstage] at hdone
    | during part htouches hfile hdone =>
      have hwhole : g.content.length ≤ part := by simpa [hstage] using hdone
      have hold : ∀ m, e.find? (e.endOf g.path) ≠ some (.directory m) := by
        simp [htouches.endOf_eq, hfile]
      obtain ⟨m, content, hfile', rfl⟩ := Disk.exists_put_of_setMode hmode hold
      have hput := htouches.trans (Disk.touches_put hold 0o600 content)
      rw [htouches.endOf_eq] at hfile' hold hput
      obtain ⟨rfl, rfl⟩ := Node.file.inj (Option.some.inj (hfile.symm.trans hfile'))
      rw [htouches.endOf_eq]
      refine .after hput ?_ rfl
      rw [path_goTo, Disk.find?_put_self hold, List.take_of_length_le hwhole, content_goTo]

theorem course_step (h : Course d g e) (reply : Disk.Reply) :
    Course d (g.step e reply).2 (g.step e reply).1 := by
  obtain ⟨stage, hstage⟩ := exists_goTo_step e g reply
  have heffect := effect_step e g reply
  rw [hstage] at heffect ⊢
  exact heffect.course h

/-- What was done is known after any number of calls. -/
theorem course_run (h : Course d g e) (replies : List Disk.Reply) :
    Course d (g.run e replies).2 (g.run e replies).1 := by
  induction replies generalizing e g with
  | nil => exact h
  | cons reply replies ih => exact ih (course_step h reply)

/-- A making leaves its path, its flag and its content as they are. -/
theorem exists_goTo_run (d : Disk) (g : Generation) (replies : List Disk.Reply) :
    ∃ stage, (g.run d replies).2 = g.goTo stage := by
  induction replies generalizing d g with
  | nil => exact ⟨g.stage, rfl⟩
  | cons reply replies ih =>
    obtain ⟨first, hfirst⟩ := exists_goTo_step d g reply
    obtain ⟨stage, hstage⟩ := ih (g.step d reply).1 (g.step d reply).2
    exact ⟨stage, by rw [run, hstage, hfirst]; rfl⟩

end Generation

/-- **Who can read a new key.** After any number of calls, whatever the device replies:
no file elsewhere is touched; where the path ends, either no file was opened, and what stands there
is as before or a directory, or the file there holds the bytes of the new key that were written and
has the permission bits it was opened with, those of the file before or of any new file, or the
making has ended well and the file is the owner's alone. So a file that it has changed is closed to
others exactly if it was opened so or the making has ended well. -/
theorem modes_of_run (d : Disk) (home : Option String) (path : String) (overwrite : Bool)
    (key : Cipher.Key) (replies : List Disk.Reply) :
    let path' := Path.expandHome home path
    let place := d.endOf path'
    let e := ((Generation.start home path overwrite key).run d replies).1
    let stage := ((Generation.start home path overwrite key).run d replies).2.stage
    (∀ other ≠ place, e.find? other = d.find? other ∨
      d.find? other = none ∧ ∃ mode, e.find? other = some (.directory mode)) ∧
    (((e.find? place = d.find? place ∨ ∃ mode, e.find? place = some (.directory mode)) ∧
        (stage = .look ∨ stage = .makeParents ∨ stage = .openFile ∨
          ∃ error, stage = .finished (.error error))) ∨
      (∃ written,
        e.find? place = some (.file (d.openMode path' 0o666) ((content key).take written)) ∧
        (stage = .write written ∨ (stage = .restrict ∧ (content key).length ≤ written) ∨
          ∃ fault, stage = .finished (.error (.io fault)))) ∨
      (e.find? place = some (.file 0o600 (content key)) ∧ stage = .finished (.ok ()))) ∧
    (∀ mode part, e.find? place = some (.file mode part) → e.find? place ≠ d.find? place →
      (Disk.Secluded mode ↔
        Disk.Secluded (d.openMode path' 0o666) ∨ stage = .finished (.ok ()))) := by
  intro path' place e stage
  have hcourse : Generation.Course d
      ((Generation.start home path overwrite key).run d replies).2 e :=
    Generation.course_run (.before (.refl _ d) (.inl rfl)) replies
  obtain ⟨last, hlast⟩ :=
    Generation.exists_goTo_run d (Generation.start home path overwrite key) replies
  have hstage : stage = last := congrArg Generation.stage hlast
  rw [hlast] at hcourse
  cases hcourse with
  | before hmakes hbefore =>
    have hplace : e.find? place = d.find? place ∨
        ∃ mode, e.find? place = some (.directory mode) := by
      rcases hmakes.nodes place with hsame | ⟨-, -, hmade⟩
      · exact .inl hsame
      · exact .inr hmade
    refine ⟨fun other hne => hmakes.touches.nodes_of_ne hne, .inl ⟨hplace, hstage ▸ hbefore⟩, ?_⟩
    intro mode part hfile hchanged
    rcases hplace with hsame | ⟨m, hmade⟩
    · exact absurd hsame hchanged
    · cases hfile.symm.trans hmade
  | during written htouches hfile hduring =>
    have hopen : e.find? place =
        some (.file (d.openMode path' 0o666) ((content key).take written)) := hfile
    refine ⟨fun other hne => htouches.nodes_of_ne hne, .inr (.inl ⟨written, hopen, ?_⟩), ?_⟩
    · rw [hstage]
      exact hduring.imp_left And.left
    · intro mode part hpart _
      obtain ⟨rfl, -⟩ := Node.file.inj (Option.some.inj (hopen.symm.trans hpart))
      refine ⟨.inl, fun h => h.resolve_right fun hdone => ?_⟩
      have hdone' : last = .finished (.ok ()) := hstage.symm.trans hdone
      rcases hduring with ⟨hduring, -⟩ | ⟨hduring, -⟩ | ⟨fault, hduring⟩
      all_goals cases hduring.symm.trans hdone'
  | after htouches hfile hdone =>
    have hdone' : stage = .finished (.ok ()) := hstage.trans hdone
    refine ⟨fun other hne => htouches.nodes_of_ne hne, .inr (.inr ⟨hfile, hdone'⟩), ?_⟩
    intro mode part hpart _
    obtain ⟨rfl, -⟩ := Node.file.inj (Option.some.inj (hfile.symm.trans hpart))
    exact ⟨fun _ => .inr hdone', fun _ => by decide⟩

/-- A file that the group could read is being replaced: its bits stay until the last call. -/
theorem modes_of_run_replacing :
    let d := (Disk.empty [] 0o022).put ["k"] (.file 0o640 [])
    let key : Cipher.Key := ⟨List.replicate 32 0x5a, rfl⟩
    let made := (Generation.start none "k" true key).run d
      [.accept 0, .accept 0, .accept 0, .accept 9]
    made.1.find? ["k"] = some (.file 0o640 ((content key).take 10)) ∧ ¬Disk.Secluded 0o640 := by
  intro d key made
  have hfile : made.1.find? ["k"] = some (.file 0o640 ((content key).take 10)) := by decide +kernel
  have hchanged : made.1.find? ["k"] ≠ d.find? ["k"] := by decide +kernel
  obtain ⟨-, hcases, hiff⟩ := modes_of_run d none "k" true key
    [.accept 0, .accept 0, .accept 0, .accept 9]
  refine ⟨hfile, fun hsecluded => ?_⟩
  rcases (hiff 0o640 _ hfile hchanged).1 hsecluded with hopen | hdone
  · exact absurd hopen (by decide +kernel)
  · -- it would have ended with the whole content
    have hremaining : made.2.remaining ≠ 0 := by decide +kernel
    exact hremaining (by rw [Generation.remaining, hdone])

/-- A new key file can be read by anybody from the call that writes it to the one that restricts it,
and for good if that one fails. -/
theorem readable_by_others_until_restricted :
    let d := Disk.empty [] 0o022
    let key : Cipher.Key := ⟨List.replicate 32 0x5a, rfl⟩
    let replies : List Disk.Reply := [.accept 0, .accept 0, .accept 0, .accept 63]
    let written := (Generation.start none "k" false key).run d replies
    let failed := (Generation.start none "k" false key).run d
      (replies ++ [.refuse (.other "")])
    written.1.find? ["k"] = some (.file 0o644 (content key)) ∧ written.2.remaining = 1 ∧
      failed.1.find? ["k"] = some (.file 0o644 (content key)) ∧
      failed.2.result = .error (.io (.other "")) ∧ ¬Disk.Secluded 0o644 := by
  decide +kernel

end KeyFile

end Keyring
