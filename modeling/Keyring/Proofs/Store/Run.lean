import Mathlib.Data.List.Infix
import Mathlib.Tactic.Common
import Keyring.Proofs.Cache.Due
import Keyring.Proofs.Disk.Contents
import Keyring.Store.Step

/-!
# Runs of a key store

Calls of a key store are made and make their steps in any order, while time passes and sweeps run.
A run is a list of such moves. What the environment does is part of the moves; which moves it may
make is a predicate `allows` of the state and the move.

* `Move`, `Store.move`, `Store.run` — the moves and what they do;
* `Store.Legal` — every move of a run is allowed where it is made;
* `Store.Legal.invariant` — what every allowed move keeps holds after a run;
* `record?`, `cached?` — what the backend and the cache hold under a name;
* `Store.Fades` — a move that no call makes, at most, removes entries from the cache.
-/

namespace Keyring.Store

/-- What may happen to a store next. -/
inductive Move where
  /-- Somebody makes a call. -/
  | call (id : Nat) (name : String) (operation : Operation)
  /-- A call makes its next step. -/
  | step (id : Nat) (reply : Reply)
  /-- Time passes. -/
  | wait (duration : Nat)
  /-- A sweep reads the clock. -/
  | beginSweep (i : Nat)
  /-- A sweep removes what was too old when it read the clock. -/
  | finishSweep (i : Nat)
  /-- The cache loses a name, whatever its age. -/
  | evict (name : String)

/-- What a move does. -/
def move (s : Store) : Move → Store
  | .call id name operation => s.call id name operation
  | .step id reply => s.step id reply
  | .wait duration => { s with cache := { s.cache with now := s.cache.now + duration } }
  | .beginSweep i => { s with cache := s.cache.beginSweep i }
  | .finishSweep i => { s with cache := s.cache.finishSweep i }
  | .evict name => { s with cache := s.cache.erase name }

/-- The store after some moves. -/
def run (s : Store) (moves : List Move) : Store := moves.foldl move s

/-- A new call has a number that is not in use. -/
def Move.Fresh (s : Store) : Move → Prop
  | .call id _ _ => s.calls.find? id = none
  | _ => True

instance decidableFresh (s : Store) : (m : Move) → Decidable (m.Fresh s)
  | .call id _ _ => decidable_of_iff ((s.calls.find? id).isNone = true) Option.isNone_iff_eq_none
  | .step _ _ | .wait _ | .beginSweep _ | .finishSweep _ | .evict _ =>
    inferInstanceAs (Decidable True)

/-- New calls have new numbers, and every move is allowed where it is made. -/
def Legal (allows : Store → Move → Prop) : Store → List Move → Prop
  | _, [] => True
  | s, m :: moves => m.Fresh s ∧ allows s m ∧ Legal allows (s.move m) moves

instance decidableLegal {allows : Store → Move → Prop} [∀ s m, Decidable (allows s m)] (s : Store) :
    (moves : List Move) → Decidable (Legal allows s moves)
  | [] => inferInstanceAs (Decidable True)
  | m :: moves =>
    have : Decidable (Legal allows (s.move m) moves) := decidableLegal (s.move m) moves
    inferInstanceAs (Decidable (_ ∧ _ ∧ _))

deriving instance DecidableEq for Work, Stage, Call

variable {allows : Store → Move → Prop} {s : Store} {moves : List Move}

@[simp] theorem run_nil (s : Store) : s.run [] = s := rfl

@[simp] theorem run_cons (s : Store) (m : Move) (moves : List Move) :
    s.run (m :: moves) = (s.move m).run moves := rfl

theorem run_append (s : Store) (before after : List Move) :
    s.run (before ++ after) = (s.run before).run after := List.foldl_append

theorem legal_append {before after : List Move} :
    Legal allows s (before ++ after) ↔
      Legal allows s before ∧ Legal allows (s.run before) after := by
  induction before generalizing s with
  | nil => simp [Legal]
  | cons m before ih => simp only [List.cons_append, Legal, run_cons, ih, and_assoc]

/-- What is legal under a rule is so under a weaker one. -/
theorem Legal.imp {allows' : Store → Move → Prop} (h : Legal allows s moves)
    (himp : ∀ t m, allows t m → allows' t m) : Legal allows' s moves := by
  induction moves generalizing s with
  | nil => trivial
  | cons m moves ih => exact ⟨h.1, himp s m h.2.1, ih h.2.2⟩

/-- What every allowed move keeps holds after a run. -/
theorem Legal.invariant {P : Store → Prop}
    (hmove : ∀ s m, P s → m.Fresh s → allows s m → P (s.move m))
    (hlegal : Legal allows s moves) (hs : P s) : P (s.run moves) := by
  -- the rest of a run is legal from the state that its first move leads to
  induction moves generalizing s with
  | nil => exact hs
  | cons m moves ih => exact ih hlegal.2.2 (hmove s m hs hlegal.1 hlegal.2.1)

/-! ### What is held under a name -/

/-- The secret that the cache holds under a name. -/
def cached? (s : Store) (name : String) : Option Secret := s.cache.cache.find? name

/-- The record that the backend holds under a name: the content of the key's file, or the entry of
the table. -/
def record? (s : Store) (name : String) : Option (List UInt8) :=
  match s.settings.backend with
  | .files directory => s.disk.contentAt? (s.disk.placeOf directory name)
  | .memory => s.table.find? name

/-! ### Moves that no call makes -/

/-- One store is another one whose cache may have lost entries. -/
structure Fades (s t : Store) : Prop where
  settings : t.settings = s.settings
  disk : t.disk = s.disk
  table : t.table = s.table
  locks : t.locks = s.locks
  calls : t.calls = s.calls
  cached : ∀ name secret, t.cached? name = some secret → s.cached? name = some secret

theorem Fades.record? {t : Store} (h : s.Fades t) (name : String) :
    t.record? name = s.record? name := by
  unfold Store.record?
  rw [h.settings, h.disk, h.table]

/-- A sweep only removes entries. -/
theorem cached?_finishSweep {i : Nat} {name : String} {secret : Secret}
    (h : ({ s with cache := s.cache.finishSweep i } : Store).cached? name = some secret) :
    s.cached? name = some secret := by
  simp only [cached?, SweptCache.finishSweep] at h ⊢
  split at h
  · exact h
  · exact Sweep.find?_finish h

theorem cached?_beginSweep (s : Store) (i : Nat) (name : String) :
    ({ s with cache := s.cache.beginSweep i } : Store).cached? name = s.cached? name := by
  simp only [cached?, SweptCache.beginSweep]
  split <;> rfl

/-- A move is a call, a step of a call, or one that at most removes entries from the cache. -/
theorem move_cases (s : Store) (m : Move) :
    (∃ id name operation, m = .call id name operation) ∨ (∃ id reply, m = .step id reply) ∨
      s.Fades (s.move m) := by
  cases m with
  | call id name operation => exact .inl ⟨id, name, operation, rfl⟩
  | step id reply => exact .inr (.inl ⟨id, reply, rfl⟩)
  | wait duration => exact .inr (.inr ⟨rfl, rfl, rfl, rfl, rfl, fun _ _ h => h⟩)
  | beginSweep i =>
    refine .inr (.inr ⟨rfl, rfl, rfl, rfl, rfl, fun name secret h => ?_⟩)
    rwa [move, cached?_beginSweep] at h
  | finishSweep i => exact .inr (.inr ⟨rfl, rfl, rfl, rfl, rfl, fun _ _ => cached?_finishSweep⟩)
  | evict name =>
    refine .inr (.inr ⟨rfl, rfl, rfl, rfl, rfl, fun other secret h => ?_⟩)
    simp only [move, cached?, SweptCache.erase, Cache.find?_erase] at h
    split at h
    · cases h
    · exact h

end Keyring.Store
