import Keyring.Proofs.Store.Ledger
import Keyring.Proofs.Store.Tampering

/-!
# A store and its files in turn

Somebody makes calls to a key store, one after the other, and lets time pass; in between, others
change the files behind the back of the store. Nothing fails. The sweep by age is then always on
time, as long as the clock goes on.

- `Turn`, `turn`, `turnAll`: what is done in turn, and what comes of it;
- `Smooth`: nothing fails that is needed;
- `Called`, `Idle.called`: all that is known of a call that has ended;
- `Paused`, `Paused.turnAll`: no call is on its way between two turns, which take their time;
- `Paused.turnAll_invariant`: what every turn keeps holds after all of them;
- `Punctual`, `Punctual.turnAll`: the sweep by age is on time;
- `Outlived`, `Punctual.not_outlived`: no entry has outlived the expiry for long.
-/

namespace Keyring.Store

/-- What is done with a store or behind its back. -/
inductive Turn where
  /-- Its only caller does something. -/
  | action (a : Action)
  /-- Others change the files. -/
  | replace (disk : Disk)

/-- What the caller does. -/
def Turn.action? : Turn → Option Action
  | .action a => some a
  | .replace _ => none

/-- How much time passes in a turn. -/
def Turn.duration : Turn → Nat
  | .action (.advance duration) | .action (.jump duration) => duration
  | .action (.call _ _) | .action .reopen | .replace _ => 0

/-- How much time passes in some turns. -/
def elapsed : List Turn → Nat
  | [] => 0
  | turn :: turns => turn.duration + elapsed turns

/-- Do what is done in a turn; `n` is the number of a call that is made. -/
def turn (environment : Environment) (n : Nat) (s : Store) : Turn → Store
  | .action a => s.act environment n a
  | .replace disk => s.tamper disk s.table

/-- Do what is done in some turns, one after the other. -/
def turnAll (environment : Environment) (n : Nat) (s : Store) : List Turn → Store
  | [] => s
  | turn :: turns => (s.turn environment n turn).turnAll environment (n + 1) turns

/-- Nothing fails in some turns: the device and the key management system do as they are asked, and
the directory can be used. -/
structure Smooth (environment : Environment) (settings : Settings)
    (opens : Ciphertext → Option Secret) (turns : List Turn) : Prop where
  faithful : environment.Faithful settings opens (turns.filterMap Turn.action?)
  usable : ∀ disk, .replace disk ∈ turns → ∀ directory, settings.backend = .files directory →
    disk.Hosts directory

/-- All that is known of a call that has ended: how it did, and what it has changed. -/
structure Called (opens : Ciphertext → Option Secret) (s t : Store) (n : Nat) (name : String)
    (operation : Operation) (outcome : Outcome) : Prop where
  ended : t.outcome? n = some outcome
  idle : t.Idle
  apart : s.Apart t n name
  finishes : Finishes s.settings opens name (s.slot name) operation outcome (t.slot name)
  tally : s.Tally t ⟨name, operation, .finished outcome⟩

/-- No call is on its way, and the numbers from `n` on are free. -/
structure Paused (n : Nat) (s : Store) : Prop where
  idle : s.Idle
  free : ∀ j, n ≤ j → s.calls.find? j = none

/-- The sweep by age is on time, if the sweeps have been started; before that nothing is cached. -/
structure Punctual (s : Store) : Prop where
  running : s.started = true → s.cache.Timely s.settings.expiry ∧ s.cache.Quiet
  before : s.started = false →
    s.cache.sweeps = [] ∧ s.cache.dropped = false ∧ ∀ name, s.stamp? name = none

/-- An instant was so long ago that the sweep by age has had the time to find whatever was put in at
it too old. -/
def Outlived (s : Store) (time : Nat) : Prop :=
  time + 2 * s.settings.expiry + s.cache.now % Time.millisecond ≤ s.cache.now

section

variable {environment : Environment} {settings : Settings} {opens : Ciphertext → Option Secret}
  {s t : Store} {n : Nat} {name : String} {operation : Operation} {outcome : Outcome}
  {before after turns : List Turn} {one : Turn}

/-! ### Lists of turns -/

theorem turnAll_cons (s : Store) (n : Nat) (one : Turn) (turns : List Turn) :
    s.turnAll environment n (one :: turns) =
      (s.turn environment n one).turnAll environment (n + 1) turns := rfl

theorem turnAll_append (s : Store) (n : Nat) (before after : List Turn) :
    s.turnAll environment n (before ++ after) =
      (s.turnAll environment n before).turnAll environment (n + before.length) after := by
  induction before generalizing s n with
  | nil => rfl
  | cons one before ih =>
    rw [List.cons_append, turnAll, ih, turnAll, List.length_cons, Nat.add_right_comm, Nat.add_assoc]

theorem turnAll_concat (s : Store) (n : Nat) (before : List Turn) (one : Turn) :
    s.turnAll environment n (before ++ [one]) =
      (s.turnAll environment n before).turn environment (n + before.length) one :=
  turnAll_append s n before [one]

theorem Smooth.of_append (h : Smooth environment settings opens (before ++ after)) :
    Smooth environment settings opens before ∧ Smooth environment settings opens after := by
  refine ⟨⟨fun name operation hmem => h.faithful name operation ?_, fun disk hmem =>
    h.usable disk (List.mem_append_left _ hmem)⟩, ⟨fun name operation hmem =>
    h.faithful name operation ?_, fun disk hmem =>
      h.usable disk (List.mem_append_right _ hmem)⟩⟩ <;>
  rw [List.filterMap_append]
  exacts [List.mem_append_left _ hmem, List.mem_append_right _ hmem]

/-! ### A call -/

/-- A call that nobody disturbs ends, and leaves the store as is known. -/
theorem Idle.called (h : s.Idle) (hfresh : s.calls.find? n = none)
    (hsmooth : Smooth environment s.settings opens [.action (.call name operation)]) :
    ∃ outcome, Called opens s (s.turn environment n (.action (.call name operation))) n name
      operation outcome := by
  have hfaithful := hsmooth.faithful name operation (by simp [Turn.action?]) n
  obtain ⟨outcome, t, hrun, houtcome, hidle, hapart, hfinishes⟩ :=
    h.complete hfresh name operation hfaithful
  obtain rfl : s.turn environment n (.action (.call name operation)) = t := hrun
  exact ⟨outcome, houtcome, hidle, hapart, hfinishes, tally_act h.sound hfresh houtcome⟩

/-- What is cached after a call was so before, or was put in at the moment. -/
theorem Called.stamp? (h : Called opens s t n name operation outcome) {other : String} {stamp : Nat}
    (hstamp : t.stamp? other = some stamp) :
    stamp = s.cache.now ∨ s.stamp? other = some stamp := by
  by_cases hother : other = name
  case neg => exact .inr ((h.tally.others other hother).symm.trans hstamp)
  case pos =>
    subst hother
    have hown := h.tally.own
    simp only [hstamp, Stage.stampAfter] at hown
    cases hbefore : s.stamp? other with
    | none =>
      rw [hbefore] at hown
      split at hown <;> simp_all
    | some old =>
      rw [hbefore] at hown
      split at hown <;> simp_all

/-- Nothing is done under a name that is not valid. -/
theorem Called.slot_of_not_valid (h : Called opens s t n name operation outcome)
    (hinvalid : ¬KeyName.Valid name) : t.slot name = s.slot name := by
  have hfinishes := h.finishes
  unfold Finishes at hfinishes
  split at hfinishes
  · exact hfinishes.2
  · next hok => exact absurd (KeyName.validate_eq_ok_iff.1 hok) hinvalid

/-! ### Between two turns -/

/-- Each turn leaves no call on its way and takes its time. -/
theorem Paused.turn (h : s.Paused n) (hsmooth : Smooth environment s.settings opens [one]) :
    (s.turn environment n one).Paused (n + 1) ∧
      (s.turn environment n one).settings = s.settings ∧
      (s.turn environment n one).cache.now = s.cache.now + one.duration := by
  have hlater (j : Nat) (hj : n + 1 ≤ j) : s.calls.find? j = none := h.free j (Nat.le_of_succ_le hj)
  cases one with
  | replace disk =>
    have hhosted : ∀ directory, s.settings.backend = .files directory → disk.Hosts directory :=
      hsmooth.usable disk (by simp)
    exact ⟨⟨⟨h.idle.sound.tamper disk s.table, h.idle.served, hhosted, h.idle.finished⟩, hlater⟩,
      rfl, rfl⟩
  | action a =>
    cases a with
    | call name operation =>
      obtain ⟨outcome, hcalled⟩ := h.idle.called (h.free n (Nat.le_refl n)) hsmooth
      refine ⟨⟨hcalled.idle, fun j hj => ?_⟩, hcalled.apart.settings, ?_⟩
      · rw [hcalled.apart.calls j (Nat.ne_of_gt hj)]
        exact hlater j hj
      · exact hcalled.tally.now
    | advance duration =>
      exact ⟨⟨h.idle.fades ⟨rfl, rfl, rfl, rfl, rfl, s.cache.fades_advance duration⟩, hlater⟩, rfl,
        s.cache.now_advance duration⟩
    | jump duration =>
      exact ⟨⟨h.idle.fades ⟨rfl, rfl, rfl, rfl, rfl, s.cache.fades_jump duration⟩, hlater⟩, rfl,
        s.cache.now_jump duration⟩
    | reopen => exact ⟨⟨idle_new h.idle.hosted _, fun _ _ => rfl⟩, rfl, rfl⟩

/-- A new store is paused. -/
theorem paused_new {disk : Disk} (now : Nat)
    (hdisk : ∀ directory, settings.backend = .files directory → disk.Hosts directory) :
    (new settings disk now).Paused 0 :=
  ⟨idle_new hdisk now, fun _ _ => rfl⟩

/-- So do all turns: they leave no call on their way, and take their time. -/
theorem Paused.turnAll (h : s.Paused n) (hsmooth : Smooth environment s.settings opens turns) :
    (s.turnAll environment n turns).Paused (n + turns.length) ∧
      (s.turnAll environment n turns).settings = s.settings ∧
      (s.turnAll environment n turns).cache.now = s.cache.now + elapsed turns := by
  induction turns generalizing s n with
  | nil => exact ⟨h, rfl, rfl⟩
  | cons one turns ih =>
    have hsplit : Smooth environment s.settings opens [one] ∧
        Smooth environment s.settings opens turns := Smooth.of_append hsmooth
    obtain ⟨hpaused, hsettings, hnow⟩ := h.turn hsplit.1
    obtain ⟨hpaused', hsettings', hnow'⟩ := ih hpaused (by rw [hsettings]; exact hsplit.2)
    refine ⟨?_, hsettings'.trans hsettings, ?_⟩
    · rw [List.length_cons, Nat.add_comm turns.length, ← Nat.add_assoc]
      exact hpaused'
    · rw [elapsed, ← Nat.add_assoc, ← hnow]
      exact hnow'

/-- What holds before some turns, and after each one if it did before, holds after all of them. -/
theorem Paused.turnAll_invariant {P : List Turn → Store → Prop} (h : s.Paused n) (hs : P [] s)
    (hturn : ∀ turns one, P turns (s.turnAll environment n turns) →
      (s.turnAll environment n turns).Paused (n + turns.length) →
      Smooth environment (s.turnAll environment n turns).settings opens [one] →
      P (turns ++ [one])
        ((s.turnAll environment n turns).turn environment (n + turns.length) one))
    (hsmooth : Smooth environment s.settings opens turns) :
    P turns (s.turnAll environment n turns) := by
  induction turns using List.reverseRecOn with
  | nil => exact hs
  | append_singleton turns one ih =>
    obtain ⟨hbefore, hone⟩ := hsmooth.of_append
    obtain ⟨hpaused, hsettings, -⟩ := h.turnAll hbefore
    rw [turnAll_concat]
    exact hturn turns one (ih hbefore) hpaused (by rw [hsettings]; exact hone)

/-! ### On time -/

/-- A new store has nothing to sweep. -/
theorem punctual_new (settings : Settings) (disk : Disk) (now : Nat) :
    (new settings disk now).Punctual :=
  ⟨fun hstarted => (by cases hstarted), fun _ => ⟨rfl, rfl, fun _ => rfl⟩⟩

/-- Checking a name starts the sweeps on time. -/
theorem Punctual.opened (h : s.Punctual) (hexpiry : 0 < s.settings.expiry)
    (hclock : s.cache.now + s.settings.expiry + Sweep.tolerance < Time.limit) (name : String) :
    (s.opened name).Punctual := by
  unfold Store.opened startSweeps
  split
  case isFalse => exact h
  case isTrue =>
    split
    case isTrue => exact h
    case isFalse hstarted =>
      obtain ⟨hsweeps, hkept, hnone⟩ := h.before (by simpa using hstarted)
      have hempty (name : String) : s.cache.held? name = none :=
        Option.map_eq_none_iff.1 (hnone name)
      have htimely := SweptCache.timely_startSweep hsweeps hempty hkept hexpiry hclock
      have hquiet : s.cache.Quiet := fun sweep hsweep => by simp [hsweeps] at hsweep
      exact ⟨fun _ => ⟨htimely.startSweep .unused _,
        (hquiet.startSweep .created _).startSweep .unused _⟩, fun hfalse => by cases hfalse⟩

/-- A call leaves the sweep on time. -/
theorem Called.punctual (h : Called opens s t n name operation outcome) (hs : s.Punctual)
    (hexpiry : 0 < s.settings.expiry)
    (hclock : s.cache.now + s.settings.expiry + Sweep.tolerance < Time.limit) : t.Punctual := by
  have hopened := hs.opened hexpiry hclock name
  obtain ⟨sweeps, hcache⟩ := s.exists_opened name
  have htsweeps : t.cache.sweeps = (s.opened name).cache.sweeps := h.tally.sweeps
  have htstarted : t.started = (s.opened name).started := h.tally.started
  have hsettings : (s.opened name).settings = s.settings := by
    unfold Store.opened startSweeps
    split <;> first | rfl | (split <;> rfl)
  constructor
  · intro hstarted
    obtain ⟨htimely, hquiet⟩ := hopened.running (htstarted ▸ hstarted)
    rw [hsettings] at htimely
    rw [h.tally.settings]
    refine ⟨htimely.of_stamps hexpiry ?_ ?_ htsweeps fun other stamp hstamp => ?_, ?_⟩
    · rw [h.tally.now, hcache]
    · rw [h.tally.kept, hcache]
    · rw [hcache]
      exact h.stamp? hstamp
    · intro sweep hsweep wake hwake
      rw [h.tally.now]
      rw [htsweeps] at hsweep
      have hlt := hquiet sweep hsweep wake hwake
      rwa [hcache] at hlt
  · intro hstarted
    -- the name is not valid, and nothing was started
    have hsame : s.opened name = s ∧ ¬KeyName.Valid name := by
      rw [htstarted] at hstarted
      unfold Store.opened startSweeps at hstarted ⊢
      split at hstarted
      · split at hstarted
        · next htrue => cases htrue.symm.trans hstarted
        · cases hstarted
      · next hinvalid => exact ⟨if_neg hinvalid, hinvalid⟩
    obtain ⟨hsweeps, hkept, hnone⟩ := hs.before (by rw [← hsame.1, ← htstarted, hstarted])
    refine ⟨by rw [htsweeps, hsame.1, hsweeps], h.tally.kept.trans hkept, fun other => ?_⟩
    by_cases hother : other = name
    · subst hother
      have hcached : t.cached? other = s.cached? other :=
        congrArg Slot.cached (h.slot_of_not_valid hsame.2)
      rw [stamp?_eq_none_iff, hcached, ← stamp?_eq_none_iff]
      exact hnone other
    · rw [h.tally.others other hother]
      exact hnone other

/-- Each turn leaves the sweep on time, as long as the clock can tell its next deadline. -/
theorem Punctual.turn (h : s.Punctual) (hpaused : s.Paused n)
    (hsmooth : Smooth environment s.settings opens [one]) (hexpiry : 0 < s.settings.expiry)
    (hclock : (s.turn environment n one).cache.now + s.settings.expiry + Sweep.tolerance <
      Time.limit) :
    (s.turn environment n one).Punctual := by
  cases one with
  | replace disk => exact ⟨h.running, h.before⟩
  | action a =>
    cases a with
    | call name operation =>
      obtain ⟨outcome, hcalled⟩ := hpaused.idle.called (hpaused.free n (Nat.le_refl n)) hsmooth
      rw [hcalled.tally.now] at hclock
      exact hcalled.punctual h hexpiry hclock
    | advance duration =>
      have hnow : (s.turn environment n (.action (.advance duration))).cache.now =
          s.cache.now + duration := s.cache.now_advance duration
      rw [hnow] at hclock
      refine ⟨fun hstarted => (h.running hstarted).1.advance hclock, fun hstarted => ?_⟩
      obtain ⟨hsweeps, hkept, hnone⟩ := h.before hstarted
      have hrun := SweptCache.runDue_of_sweeps_eq_nil hsweeps (s.cache.now + duration)
      simp only [Store.turn, act, stamp?, SweptCache.advance, SweptCache.advanceTo, hrun]
      exact ⟨hsweeps, hkept, hnone⟩
    | jump duration =>
      have hnow : (s.turn environment n (.action (.jump duration))).cache.now =
          s.cache.now + duration := s.cache.now_jump duration
      rw [hnow] at hclock
      refine ⟨fun hstarted => (h.running hstarted).1.jump hclock, fun hstarted => ?_⟩
      obtain ⟨hsweeps, hkept, hnone⟩ := h.before hstarted
      have hrun := SweptCache.runDue_of_sweeps_eq_nil
        (c := { s.cache with now := s.cache.now + duration }) hsweeps (s.cache.now + duration)
      simp only [Store.turn, act, stamp?, SweptCache.jump, hrun]
      exact ⟨hsweeps, hkept, hnone⟩
    | reopen => exact punctual_new _ _ _

/-- **The sweep by age is on time** after any turns, as long as the clock can tell its next
deadline. -/
theorem Punctual.turnAll (h : s.Punctual) (hpaused : s.Paused n) (hexpiry : 0 < s.settings.expiry)
    (hsmooth : Smooth environment s.settings opens turns)
    (hclock : (s.turnAll environment n turns).cache.now + s.settings.expiry + Sweep.tolerance <
      Time.limit) :
    (s.turnAll environment n turns).Punctual := by
  refine (hpaused.turnAll_invariant (P := fun _ t => t.settings = s.settings ∧
    (t.cache.now + s.settings.expiry + Sweep.tolerance < Time.limit → t.Punctual))
    ⟨rfl, fun _ => h⟩ (fun turns one ht hpaused hone => ?_) hsmooth).2 hclock
  obtain ⟨hsettings, hpunctual⟩ := ht
  obtain ⟨-, hsettings', hnow⟩ := hpaused.turn hone
  refine ⟨hsettings'.trans hsettings, fun hclock => ?_⟩
  have hearlier := hpunctual (Nat.lt_of_le_of_lt (by omega) hclock)
  refine hearlier.turn hpaused hone ?_ ?_ <;> rw [hsettings]
  exacts [hexpiry, hclock]

/-- What is found in the cache has not been outlived, as long as less than half of the time has
passed that the clock can tell. -/
theorem Punctual.not_outlived {stamp : Nat} (h : s.Punctual) (hpaused : s.Paused n)
    (hexpiry : 0 < s.settings.expiry) (hsmooth : Smooth environment s.settings opens turns)
    (hclock : 2 * (s.turnAll environment n turns).cache.now + Sweep.tolerance < Time.limit)
    (hstamp : (s.turnAll environment n turns).stamp? name = some stamp) :
    ¬(s.turnAll environment n turns).Outlived stamp := by
  have hpunctual := h.turnAll hpaused hexpiry hsmooth
  obtain ⟨-, hsettings, -⟩ := hpaused.turnAll hsmooth
  generalize s.turnAll environment n turns = t at *
  rw [Outlived, hsettings]
  by_cases hearly : t.cache.now < s.settings.expiry
  · omega
  · have ht := hpunctual (Nat.lt_of_le_of_lt (by omega) hclock)
    have hstarted : t.started = true := by
      by_contra hnot
      cases ((ht.before (by simpa using hnot)).2.2 name).symm.trans hstamp
    obtain ⟨htimely, hquiet⟩ := ht.running hstarted
    obtain ⟨e, he, rfl⟩ := Option.map_eq_some_iff.1 hstamp
    have hlt := htimely.lt_of_held? hquiet he
    rw [hsettings] at hlt
    exact Nat.not_le.2 hlt

end

end Keyring.Store
