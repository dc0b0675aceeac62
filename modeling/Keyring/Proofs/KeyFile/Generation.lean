import Keyring.Proofs.Disk.Files
import Keyring.Proofs.KeyFile.Format

/-!
# What the making of a key file leaves

The device may take each call or not, and any part of what is written at once. A making that ends
well has written the whole content: what it has written so far is what is read by its path at each
stage.

- `Generation.run`: a making whose calls are replied to in turn;
- `Generation.Sound`, `sound_step`, `sound_run`: what is read while it is written;
- `Generation.exists_run_eq_complete`: a making on a device that takes everything is one of these;
- `read_of_run`, `read_of_generate`: what is read when the making has ended well.
-/

namespace Keyring.KeyFile

namespace Generation

variable {d : Disk} {g : Generation} {home : Option String} {path : String} {overwrite : Bool}
  {key : Cipher.Key}

/-- Make one call for each reply. -/
def run (d : Disk) (g : Generation) : List Disk.Reply → Disk × Generation
  | [] => (d, g)
  | reply :: replies => run (g.step d reply).1 (g.step d reply).2 replies

/-- What is written so far is what is read. -/
def Sound (d : Disk) (g : Generation) : Prop :=
  match g.stage with
  | .write written => written ≤ g.content.length ∧ d.read g.path = .ok (g.content.take written)
  | .restrict | .finished (.ok ()) => d.read g.path = .ok g.content
  | _ => True

/-- A making goes on to another stage and leaves what it is about. -/
theorem exists_goTo_step (d : Disk) (g : Generation) (reply : Disk.Reply) :
    ∃ stage, (g.step d reply).2 = g.goTo stage := by
  unfold step fail refuse
  split
  case h_1 => exact ⟨g.stage, rfl⟩
  all_goals
    repeat' split
    all_goals exact ⟨_, rfl⟩

/-- A call that the device does not take changes nothing that is written. -/
theorem sound_step_refuse (h : g.Sound d) (fault : FileFault) :
    (g.step d (.refuse fault)).2.Sound (g.step d (.refuse fault)).1 := by
  obtain ⟨path, overwrite, content, stage⟩ := g
  cases stage with
  | finished result => exact h
  -- the making goes on to look for the directories, or has failed
  | _ => trivial

/-- Each call keeps what is written so far, or writes on from there. -/
theorem sound_step (h : g.Sound d) (reply : Disk.Reply) :
    (g.step d reply).2.Sound (g.step d reply).1 := by
  cases reply with
  | refuse fault => exact sound_step_refuse h fault
  | accept limit =>
    obtain ⟨path, overwrite, content, stage⟩ := g
    cases stage with
    | finished result => exact h
    | look =>
      simp only [step]
      split <;> trivial
    | makeParents =>
      simp only [step]
      split
      · trivial
      · split <;> trivial
    | openFile =>
      simp only [step]
      split
      · trivial
      case h_2 e hopen => exact ⟨Nat.zero_le _, Disk.read_of_createOrTruncate hopen⟩
    | write written =>
      obtain ⟨hpart, hread⟩ : written ≤ content.length ∧
        d.read path = .ok (content.take written) := h
      simp only [step]
      split
      · trivial
      case h_2 e hwrite =>
        -- the device has taken some of the bytes that were left
        have hmore := Disk.read_of_writeAt hread hwrite
        rw [Disk.overwrite_take content hpart] at hmore
        split
        case isTrue hlt => exact ⟨hlt.le, hmore⟩
        case isFalse hlast =>
          rw [List.take_of_length_le (Nat.le_of_not_lt hlast)] at hmore
          exact hmore
    | restrict =>
      have hread : d.read path = .ok content := h
      simp only [step]
      split
      · trivial
      case h_2 e hrestrict => exact Disk.read_of_setMode hread hrestrict

/-- What a making is about does not change, and what it has written is read, whatever the device
replies. -/
theorem sound_run (h : g.Sound d) (replies : List Disk.Reply) :
    (∃ stage, (g.run d replies).2 = g.goTo stage) ∧
      (g.run d replies).2.Sound (g.run d replies).1 := by
  induction replies generalizing d g with
  | nil => exact ⟨⟨g.stage, rfl⟩, h⟩
  | cons reply replies ih =>
    obtain ⟨⟨stage, hstage⟩, hsound⟩ := ih (sound_step h reply)
    obtain ⟨first, hfirst⟩ := exists_goTo_step d g reply
    refine ⟨⟨stage, ?_⟩, hsound⟩
    rw [run, hstage, hfirst]
    rfl

/-- A making with no call left has ended with its result. -/
theorem stage_of_remaining (h : g.remaining = 0) : g.stage = .finished g.result := by
  unfold remaining at h
  unfold result
  split at h
  case h_6 result hstage => simp only [hstage]
  all_goals omega

/-- A making on a device that takes everything is one of those that the device may reply to. -/
theorem exists_run_eq_complete (d : Disk) (g : Generation) :
    ∃ replies, (g.run d replies).1 = (g.complete d).1 ∧
      (g.run d replies).2.stage = .finished (g.complete d).2 := by
  fun_induction complete d g with
  | case1 d g hdone => exact ⟨[], rfl, stage_of_remaining hdone⟩
  | case2 d g hmore hless ih =>
    obtain ⟨replies, hdisk, hstage⟩ := ih
    exact ⟨.accept g.content.length :: replies, hdisk, hstage⟩

end Generation

variable {d e : Disk} {home : Option String} {path : String} {overwrite : Bool} {key : Cipher.Key}
  {replies : List Disk.Reply} {g : Generation}

/-- A making that has ended well has left the content of its key, whatever the device replied on the
way. -/
theorem read_of_run (h : (Generation.start home path overwrite key).run d replies = (e, g))
    (hdone : g.stage = .finished (.ok ())) :
    e.read (Path.expandHome home path) = .ok (content key) := by
  -- nothing is written yet, so that nothing is asked of the disk
  have hstart : (Generation.start home path overwrite key).Sound d := trivial
  obtain ⟨⟨stage, hstage⟩, hsound⟩ := Generation.sound_run hstart replies
  rw [h] at hstage hsound
  subst hstage
  obtain rfl : stage = .finished (.ok ()) := hdone
  exact hsound

theorem read_of_generate (h : generate d home path overwrite key = (e, .ok ())) :
    e.read (Path.expandHome home path) = .ok (content key) := by
  obtain ⟨replies, hdisk, hstage⟩ :=
    Generation.exists_run_eq_complete d (.start home path overwrite key)
  rw [← generate, h] at hdisk hstage
  have hrun : (Generation.start home path overwrite key).run d replies = (e, _) :=
    Prod.ext hdisk rfl
  exact read_of_run hrun hstage

end Keyring.KeyFile
