import Keyring.Proofs.Store.Interruption

/-!
# Stores that others reach around

The files of a key store are open to everybody, and its records may change while no call asks for
that. `tamper` puts any disk and any table in place of those that the store knows; it leaves the
cache, the locks and the calls as they are.

- `Occurrence`, `occur`, `occurAll`: what befalls a store, and changes behind its back;
- `Admissible`, `Admissible.keeps`: what all of that keeps holds after a run;
- `Sound.tamper`: calls and locks stay in order whatever is stored.
-/

namespace Keyring.Store

/-- What may happen next to a store that others reach around. -/
inductive Occurrence where
  /-- Something befalls the store. -/
  | incident (i : Incident)
  /-- What is stored changes behind the back of the store. -/
  | tamper (disk : Disk) (table : NameMap (List UInt8))

/-- A store whose records others have changed. -/
def tamper (s : Store) (disk : Disk) (table : NameMap (List UInt8)) : Store :=
  { s with disk, table }

/-- What becomes of a store. -/
def occur (s : Store) : Occurrence → Store
  | .incident i => s.befall i
  | .tamper disk table => s.tamper disk table

/-- What becomes of a store to which much happens. -/
def occurAll (s : Store) (occurrences : List Occurrence) : Store := occurrences.foldl occur s

/-- A new call has a number that is not in use. -/
def Occurrence.Fresh (s : Store) : Occurrence → Prop
  | .incident i => i.Fresh s
  | .tamper _ _ => True

/-- New calls have new numbers, and everything is allowed where it happens. -/
def Admissible (allows : Store → Occurrence → Prop) : Store → List Occurrence → Prop
  | _, [] => True
  | s, o :: occurrences => o.Fresh s ∧ allows s o ∧ Admissible allows (s.occur o) occurrences

instance decidableFreshOccurrence (s : Store) : (o : Occurrence) → Decidable (o.Fresh s)
  | .incident i => inferInstanceAs (Decidable (i.Fresh s))
  | .tamper _ _ => inferInstanceAs (Decidable True)

instance decidableAdmissible {allows : Store → Occurrence → Prop} [∀ s o, Decidable (allows s o)]
    (s : Store) : (occurrences : List Occurrence) → Decidable (Admissible allows s occurrences)
  | [] => inferInstanceAs (Decidable True)
  | o :: occurrences =>
    have : Decidable (Admissible allows (s.occur o) occurrences) :=
      decidableAdmissible (s.occur o) occurrences
    inferInstanceAs (Decidable (_ ∧ _ ∧ _))

variable {allows : Store → Occurrence → Prop} {s : Store} {occurrences : List Occurrence}

@[simp] theorem occurAll_nil (s : Store) : s.occurAll [] = s := rfl

@[simp] theorem occurAll_cons (s : Store) (o : Occurrence) (occurrences : List Occurrence) :
    s.occurAll (o :: occurrences) = (s.occur o).occurAll occurrences := rfl

theorem occurAll_append (s : Store) (before after : List Occurrence) :
    s.occurAll (before ++ after) = (s.occurAll before).occurAll after := List.foldl_append

theorem admissible_append {before after : List Occurrence} :
    Admissible allows s (before ++ after) ↔
      Admissible allows s before ∧ Admissible allows (s.occurAll before) after := by
  induction before generalizing s with
  | nil => simp [Admissible]
  | cons o before ih => simp only [List.cons_append, Admissible, occurAll_cons, ih, and_assoc]

theorem occurAll_map_incident (s : Store) (incidents : List Incident) :
    s.occurAll (incidents.map .incident) = s.befallAll incidents := by
  rw [occurAll, List.foldl_map]
  rfl

/-- What befalls a store happens to it without anybody reaching around it. -/
theorem Lawful.admissible {allows : Store → Incident → Prop} {incidents : List Incident}
    (h : Lawful allows s incidents) :
    Admissible (fun _ _ => True) s (incidents.map .incident) := by
  induction incidents generalizing s with
  | nil => trivial
  | cons i incidents ih => exact ⟨h.1, trivial, ih h.2.2⟩

/-- Calls and locks do not depend on what is stored. -/
theorem Sound.tamper (h : s.Sound) (disk : Disk) (table : NameMap (List UInt8)) :
    (s.tamper disk table).Sound :=
  ⟨h.agrees, h.fits, h.locked⟩

/-- What new calls, steps and moves that no call makes keep holds after any move. -/
theorem keeps_move {P : Store → Prop} {m : Move}
    (hcall : ∀ id name operation, m = .call id name operation → s.calls.find? id = none →
      P (s.call id name operation))
    (hstep : ∀ id reply call change stage, m = .step id reply → s.calls.find? id = some call →
      s.Advances (s.step id reply) id call reply change stage → P (s.step id reply))
    (hfades : (∀ id reply, m ≠ .step id reply) → s.Fades (s.move m) → P (s.move m))
    (hfresh : m.Fresh s) (hsound : s.Sound) (hs : P s) : P (s.move m) := by
  by_cases hmade : ∃ id reply, m = .step id reply
  case pos =>
    obtain ⟨id, reply, rfl⟩ := hmade
    cases hfind : s.calls.find? id with
    | none =>
      -- a call that was not made makes no steps
      rw [Store.move, step, hfind]
      exact hs
    | some call =>
      obtain ⟨change, stage, hadv⟩ := exists_advances hfind (hsound.fits id call hfind) reply
      exact hstep id reply call change stage rfl hfind hadv
  case neg =>
    have hother : ∀ id reply, m ≠ .step id reply := fun id reply h => hmade ⟨id, reply, h⟩
    rcases move_cases s m with ⟨id, name, operation, rfl⟩ | ⟨id, reply, rfl⟩ | hfade
    · exact hcall id name operation rfl hfresh
    · exact absurd rfl (hother id reply)
    · exact hfades hother hfade

/-- What new calls, steps, moves that no call makes, interruptions and changes behind the back of
a store keep holds after a run. -/
theorem Admissible.keeps {P : Store → Prop}
    (hcall : ∀ s id name operation, s.Sound → P s → s.calls.find? id = none →
      allows s (.incident (.move (.call id name operation))) → P (s.call id name operation))
    (hstep : ∀ s id call reply change stage, s.Sound → P s → s.calls.find? id = some call →
      allows s (.incident (.move (.step id reply))) →
      s.Advances (s.step id reply) id call reply change stage → P (s.step id reply))
    (hfades : ∀ s m, s.Sound → P s → (∀ id reply, m ≠ .step id reply) →
      allows s (.incident (.move m)) → s.Fades (s.move m) → P (s.move m))
    (hdrop : ∀ s id, s.Sound → P s → allows s (.incident (.drop id)) → P (s.abandon id))
    (hrestart : ∀ s, s.Sound → P s → allows s (.incident .restart) → P s.reopen)
    (htamper : ∀ s disk table, s.Sound → P s → allows s (.tamper disk table) →
      P (s.tamper disk table))
    (hadmissible : Admissible allows s occurrences) (hsound : s.Sound) (hs : P s) :
    (s.occurAll occurrences).Sound ∧ P (s.occurAll occurrences) := by
  induction occurrences generalizing s with
  | nil => exact ⟨hsound, hs⟩
  | cons o occurrences ih =>
    obtain ⟨hfresh, hallows, hrest⟩ := hadmissible
    rw [occurAll_cons]
    cases o with
    | tamper disk table =>
      exact ih hrest (hsound.tamper disk table) (htamper s disk table hsound hs hallows)
    | incident i =>
      cases i with
      | move m =>
        -- a move is a run of its own
        have hlegal : Legal (fun _ _ => True) s [m] := ⟨hfresh, trivial, trivial⟩
        refine ih hrest (hlegal.sound hsound) (keeps_move ?_ ?_ ?_ hfresh hsound hs)
        · rintro id name operation rfl hfind
          exact hcall s id name operation hsound hs hfind hallows
        · rintro id reply call change stage rfl hfind hadv
          exact hstep s id call reply change stage hsound hs hfind hallows hadv
        · intro hother hfade
          exact hfades s m hsound hs hother hallows hfade
      | drop id => exact ih hrest (hsound.abandon id) (hdrop s id hsound hs hallows)
      | restart =>
        exact ih hrest (sound_new s.settings s.disk s.cache.now) (hrestart s hsound hs hallows)

/-- Calls and locks are sound after a run, whatever is done behind the back of the store. -/
theorem Admissible.sound (hadmissible : Admissible allows s occurrences) (hsound : s.Sound) :
    (s.occurAll occurrences).Sound :=
  (hadmissible.keeps (P := fun _ => True) (fun _ _ _ _ _ _ _ _ => trivial)
    (fun _ _ _ _ _ _ _ _ _ _ _ => trivial) (fun _ _ _ _ _ _ _ => trivial)
    (fun _ _ _ _ _ => trivial) (fun _ _ _ _ => trivial) (fun _ _ _ _ _ _ => trivial)
    hsound trivial).1

/-- The settings never change, whatever is done behind the back of the store. -/
theorem Admissible.settings_eq (hadmissible : Admissible allows s occurrences) (hsound : s.Sound) :
    (s.occurAll occurrences).settings = s.settings :=
  (hadmissible.keeps (P := fun t => t.settings = s.settings) (fun _ _ _ _ _ h _ _ => h)
    (fun _ _ _ _ _ _ _ h _ _ hadv => hadv.settings.trans h)
    (fun _ _ _ h _ _ hfades => hfades.settings.trans h) (fun _ _ _ h _ => h) (fun _ _ h _ => h)
    (fun _ _ _ _ h _ => h) hsound rfl).2

end Keyring.Store
