import Keyring.Proofs.Store.Sequence

/-!
# Interrupted runs

The process of a key store may stop at any moment, and somebody may stop waiting for a call, which
then goes no further. What was done to the disk stays done; a store that is set up anew begins with
an empty cache and without calls.

- `Incident`, `befall`, `befallAll`: moves of a store and interruptions;
- `Lawful`, `Lawful.keeps`: what all of them keep holds after a run;
- `Sound.abandon`, `Hosted.step`: calls, locks and the directory stay in order.
-/

namespace Keyring.Store

/-- What may befall a store next. -/
inductive Incident where
  /-- A move. -/
  | move (m : Move)
  /-- A call is given up where it is. -/
  | drop (id : Nat)
  /-- The process stops, and the store is set up anew. -/
  | restart

/-- What becomes of a store. -/
def befall (s : Store) : Incident → Store
  | .move m => s.move m
  | .drop id => s.abandon id
  | .restart => s.reopen

/-- What becomes of a store that many things befall. -/
def befallAll (s : Store) (incidents : List Incident) : Store := incidents.foldl befall s

/-- A new call has a number that is not in use. -/
def Incident.Fresh (s : Store) : Incident → Prop
  | .move m => m.Fresh s
  | .drop _ | .restart => True

/-- New calls have new numbers, and everything is allowed where it happens. -/
def Lawful (allows : Store → Incident → Prop) : Store → List Incident → Prop
  | _, [] => True
  | s, i :: incidents => i.Fresh s ∧ allows s i ∧ Lawful allows (s.befall i) incidents

instance decidableFreshIncident (s : Store) : (i : Incident) → Decidable (i.Fresh s)
  | .move m => inferInstanceAs (Decidable (m.Fresh s))
  | .drop _ | .restart => inferInstanceAs (Decidable True)

instance decidableLawful {allows : Store → Incident → Prop} [∀ s i, Decidable (allows s i)]
    (s : Store) : (incidents : List Incident) → Decidable (Lawful allows s incidents)
  | [] => inferInstanceAs (Decidable True)
  | i :: incidents =>
    have : Decidable (Lawful allows (s.befall i) incidents) :=
      decidableLawful (s.befall i) incidents
    inferInstanceAs (Decidable (_ ∧ _ ∧ _))

variable {allows : Store → Incident → Prop} {s t : Store} {id j : Nat} {name : String}
  {call : Call} {reply : Reply} {incidents : List Incident}

@[simp] theorem befallAll_nil (s : Store) : s.befallAll [] = s := rfl

@[simp] theorem befallAll_cons (s : Store) (i : Incident) (incidents : List Incident) :
    s.befallAll (i :: incidents) = (s.befall i).befallAll incidents := rfl

theorem befallAll_append (s : Store) (before after : List Incident) :
    s.befallAll (before ++ after) = (s.befallAll before).befallAll after := List.foldl_append

theorem lawful_append {before after : List Incident} :
    Lawful allows s (before ++ after) ↔
      Lawful allows s before ∧ Lawful allows (s.befallAll before) after := by
  induction before generalizing s with
  | nil => simp [Lawful]
  | cons i before ih => simp only [List.cons_append, Lawful, befallAll_cons, ih, and_assoc]

/-- What is lawful under a rule is so under a weaker one. -/
theorem Lawful.imp {allows' : Store → Incident → Prop} (h : Lawful allows s incidents)
    (himp : ∀ t i, allows t i → allows' t i) : Lawful allows' s incidents := by
  induction incidents generalizing s with
  | nil => trivial
  | cons i incidents ih => exact ⟨h.1, himp s i h.2.1, ih h.2.2⟩

theorem Lawful.and {allows' : Store → Incident → Prop} (h : Lawful allows s incidents)
    (h' : Lawful allows' s incidents) :
    Lawful (fun s i => allows s i ∧ allows' s i) s incidents := by
  induction incidents generalizing s with
  | nil => trivial
  | cons i incidents ih => exact ⟨h.1, ⟨h.2.1, h'.2.1⟩, ih h.2.2 h'.2.2⟩

/-- A run is lawful under what holds of all that befalls. -/
theorem Lawful.and_forall {P : Incident → Prop} (h : Lawful allows s incidents)
    (hP : ∀ i ∈ incidents, P i) : Lawful (fun s i => allows s i ∧ P i) s incidents := by
  induction incidents generalizing s with
  | nil => trivial
  | cons i incidents ih =>
    exact ⟨h.1, ⟨h.2.1, hP i List.mem_cons_self⟩,
      ih h.2.2 fun j hj => hP j (List.mem_cons_of_mem i hj)⟩

theorem befallAll_map_move (s : Store) (moves : List Move) :
    s.befallAll (moves.map .move) = s.run moves := by
  rw [befallAll, List.foldl_map]
  rfl

/-- A run of moves befalls a store, too. -/
theorem Legal.lawful {moves : List Move} (h : Legal (fun s m => allows s (.move m)) s moves) :
    Lawful allows s (moves.map .move) := by
  induction moves generalizing s with
  | nil => trivial
  | cons m moves ih => exact ⟨h.1, h.2.1, ih h.2.2⟩

/-! ### A call that is given up -/

theorem find?_abandon (s : Store) (id j : Nat) :
    (s.abandon id).calls.find? j = if j = id then none else s.calls.find? j := by
  by_cases hj : j = id <;> simp [abandon, hj]

/-- The calls that are left were there before. -/
theorem find?_of_abandon (h : (s.abandon id).calls.find? j = some call) :
    j ≠ id ∧ s.calls.find? j = some call := by
  rw [find?_abandon] at h
  split at h
  case isTrue => cases h
  case isFalse hj => exact ⟨hj, h⟩

theorem user?_abandon (s : Store) (id : Nat) :
    (s.abandon id).user? = Function.update s.user? id none := by
  funext j
  by_cases hj : j = id
  · subst hj
    simp [user?, find?_abandon]
  · simp [user?, find?_abandon, hj]

/-- Giving up a call keeps calls and locks sound: it leaves its lock, and no other call loses
anything. -/
theorem Sound.abandon (h : s.Sound) (id : Nat) : (s.abandon id).Sound := by
  cases href : s.locks.references.find? id with
  | none =>
    -- nobody refers to a lock under this number
    have hlocks : (s.abandon id).locks = s.locks := by
      simp only [Store.abandon, NameLocks.leave, NameLocks.object?_eq, href, Option.map_none]
    have huser : s.user? id = none := by
      by_contra hsome
      obtain ⟨name, hname⟩ := Option.ne_none_iff_exists'.1 hsome
      obtain ⟨object, -, href'⟩ := h.agrees.current id name hname
      cases href.symm.trans href'
    refine ⟨?_, fun j other hother => ?_, fun j other hother => ?_⟩
    · rw [user?_abandon, hlocks, Function.update_eq_self_iff.2 huser.symm]
      exact h.agrees
    · exact h.fits j other (find?_of_abandon hother).2
    · rw [hlocks]
      exact h.locked j other (find?_of_abandon hother).2
  | some object =>
    refine ⟨?_, fun j other hother => ?_, fun j other hother => ?_⟩
    · rw [user?_abandon]
      exact NameLocks.agrees_leave h.agrees href
    · exact h.fits j other (find?_of_abandon hother).2
    · obtain ⟨hne, hother⟩ := find?_of_abandon hother
      exact (h.locked j other hother).mono (fun mode => NameLocks.askedBy_leave_iff href hne)
        fun mode hheld => hheld.leave href hne

/-! ### The directory -/

/-- No work on a file takes the directory away. -/
theorem hosts_doWork {directory : String} {w : Work}
    (hfiles : s.settings.backend = .files directory) (h : s.disk.Hosts directory)
    (hvalid : KeyName.Valid name) (hchanges : w.changesDisk = true) (reply : Reply) :
    (s.doWork name reply w).1.disk.Hosts directory := by
  -- a step that succeeds leaves a directory that serves, and one that fails leaves the disk
  cases w with
  | makeDirectory secret record =>
    simp only [doWork, hfiles]
    unfold makeDirectory
    split
    · exact h
    · obtain ⟨e, hmade, hserves⟩ := h.exists_serves
      simp only [hmade]
      exact .there hserves
  | createFile secret record =>
    simp only [doWork, hfiles]
    unfold createFile path
    split
    · exact h
    · split
      case h_1 e he =>
        obtain ⟨⟨target, hlocate⟩, -⟩ := Disk.becomes_createNew hvalid he
        exact .there ((h.serves_of_locate hvalid hlocate).createNew hvalid he)
      case h_2 | h_3 => exact h
  | write secret record written =>
    simp only [doWork, hfiles]
    unfold write path
    split
    · exact h
    · split
      case h_1 => exact h
      case h_2 e he =>
        obtain ⟨content, hcontent, -⟩ := Disk.becomes_writeAt hvalid he
        exact .there ((h.serves_of_some hvalid hcontent).writeAt hvalid he)
  | rollBack fault =>
    simp only [doWork, hfiles]
    unfold rollBack path
    split
    · exact h
    · split
      case h_1 => exact h
      case h_2 e he => exact .there (h.remove hvalid he)
  | remove =>
    simp only [doWork]
    unfold remove path
    simp only [hfiles]
    cases reply.device with
    | refuse fault => exact h
    | accept limit =>
      simp only
      split
      case h_1 e he => exact .there (h.remove hvalid he)
      case h_2 | h_3 => exact h
  | _ => cases hchanges

/-- No step takes the directory of a store away. -/
theorem Hosted.step (h : s.Hosted) (hsound : s.Sound) (id : Nat) (reply : Reply) :
    (s.step id reply).Hosted := by
  intro directory hfiles
  cases hcall : s.calls.find? id with
  | none =>
    rw [Store.step, hcall] at hfiles ⊢
    exact h directory hfiles
  | some call =>
    have hfits := hsound.fits id call hcall
    obtain ⟨⟨change, hadv⟩, hdisk⟩ := exists_advances_perform hcall hfits reply
    rw [hadv.settings] at hfiles
    rw [hdisk]
    by_cases hchanges : ∃ w, call.stage = .work w ∧ w.changesDisk = true
    case pos =>
      obtain ⟨w, hstage, hchanges⟩ := hchanges
      rw [hstage] at hfits
      simp only [perform, hstage]
      exact hosts_doWork hfiles (h directory hfiles) hfits.1 hchanges reply
    case neg =>
      rw [disk_perform fun w hw => by simpa [hw] using hchanges]
      exact h directory hfiles

/-! ### Runs -/

/-- What new calls, steps, interruptions and moves that no call makes keep holds after a run. -/
theorem Lawful.keeps {P : Store → Prop}
    (hcall : ∀ s id name operation, s.Sound → P s → s.calls.find? id = none →
      allows s (.move (.call id name operation)) → P (s.call id name operation))
    (hstep : ∀ s id call reply change stage, s.Sound → P s → s.calls.find? id = some call →
      allows s (.move (.step id reply)) →
      s.Advances (s.step id reply) id call reply change stage → P (s.step id reply))
    (hfades : ∀ s t, s.Sound → P s → s.Fades t → P t)
    (hdrop : ∀ s id, s.Sound → P s → allows s (.drop id) → P (s.abandon id))
    (hrestart : ∀ s, s.Sound → P s → allows s .restart → P s.reopen)
    (hlawful : Lawful allows s incidents) (hsound : s.Sound) (hs : P s) :
    (s.befallAll incidents).Sound ∧ P (s.befallAll incidents) := by
  induction incidents generalizing s with
  | nil => exact ⟨hsound, hs⟩
  | cons i incidents ih =>
    obtain ⟨hfresh, hallows, hrest⟩ := hlawful
    rw [befallAll_cons]
    cases i with
    | move m =>
      -- a move is a run of its own
      have hlegal : Legal (fun s m => allows s (.move m)) s [m] := ⟨hfresh, hallows, trivial⟩
      obtain ⟨hsound', hs'⟩ := hlegal.keeps hcall hstep hfades hsound hs
      exact ih hrest hsound' hs'
    | drop id => exact ih hrest (hsound.abandon id) (hdrop s id hsound hs hallows)
    | restart =>
      exact ih hrest (sound_new s.settings s.disk s.cache.now) (hrestart s hsound hs hallows)

theorem Lawful.sound (hlawful : Lawful allows s incidents) (hsound : s.Sound) :
    (s.befallAll incidents).Sound :=
  (hlawful.keeps (P := fun _ => True) (fun _ _ _ _ _ _ _ _ => trivial)
    (fun _ _ _ _ _ _ _ _ _ _ _ => trivial) (fun _ _ _ _ _ => trivial) (fun _ _ _ _ _ => trivial)
    (fun _ _ _ _ => trivial) hsound trivial).1

/-- The settings never change, whatever befalls a store. -/
theorem Lawful.settings_eq (hlawful : Lawful allows s incidents) (hsound : s.Sound) :
    (s.befallAll incidents).settings = s.settings :=
  (hlawful.keeps (P := fun t => t.settings = s.settings) (fun _ _ _ _ _ h _ _ => h)
    (fun _ _ _ _ _ _ _ h _ _ hadv => hadv.settings.trans h)
    (fun _ _ _ h hfades => hfades.settings.trans h) (fun _ _ _ h _ => h) (fun _ _ h _ => h) hsound
    rfl).2

/-- A store that much befalls goes on having its settings and its directory. -/
theorem Lawful.hosted (hlawful : Lawful allows s incidents) (hsound : s.Sound)
    (hhosted : s.Hosted) :
    (s.befallAll incidents).Sound ∧
      (s.befallAll incidents).settings = s.settings ∧ (s.befallAll incidents).Hosted := by
  refine hlawful.keeps (P := fun t => t.settings = s.settings ∧ t.Hosted)
    (fun _ _ _ _ _ h _ _ => h) ?_ ?_ (fun _ _ _ h _ => h) (fun _ _ h _ => h) hsound
    ⟨rfl, hhosted⟩
  · rintro u id call reply change stage hsound' ⟨hsettings, hhosted'⟩ - - hadv
    exact ⟨hadv.settings.trans hsettings, hhosted'.step hsound' id reply⟩
  · rintro u v - ⟨hsettings, hhosted'⟩ hfades
    exact ⟨hfades.settings.trans hsettings, hhosted'.of_eq hfades.settings hfades.disk⟩

end Keyring.Store
