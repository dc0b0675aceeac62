import Keyring.Proofs.Lock.Names

/-!
# Locks are served

A request waits only while it does not agree with the holders. So whoever asks for the lock of a
name that nobody else uses has it.

- `FairLock.Served`, `NameLocks.Served`: nobody waits who could be served;
- `NameLocks.Served.obtain`, `NameLocks.Served.request`, `NameLocks.Served.leave`: each operation
  keeps that;
- `NameLocks.Agrees.isHeldBy_of_alone`: who is alone holds the lock that it asked for;
- `NameLocks.Agrees.exists_holder`: who waits for the lock of a name waits for somebody who has it.
-/

namespace Keyring

namespace FairLock

variable {l : FairLock}

/-- The first request that waits does not agree with the holders. -/
def Served (l : FairLock) : Prop :=
  ∀ request ∈ l.queue.head?, admits l.holders request.2 = false

theorem served_idle : idle.Served := by
  intro request h
  cases h

/-- Serving the queue goes on until nobody can be served. -/
theorem served_serve (holders queue : List (Nat × LockMode)) : (serve holders queue).Served := by
  induction queue generalizing holders with
  | nil =>
    intro request h
    cases h
  | cons request queue ih =>
    unfold serve
    split
    case isTrue => exact ih _
    case isFalse hadmits =>
      intro first hfirst
      obtain rfl := Option.some.inj hfirst
      exact Bool.eq_false_iff.2 hadmits

/-- Nobody waits for a lock that nobody holds. -/
theorem Served.queue_eq_nil (h : l.Served) (hnone : l.holders = []) : l.queue = [] := by
  cases hqueue : l.queue with
  | nil => rfl
  | cons request queue =>
    have hrefused := h request (by rw [hqueue]; rfl)
    rw [hnone] at hrefused
    cases hmode : request.2 <;> rw [hmode] at hrefused <;> cases hrefused

/-- A lock that somebody uses is held. -/
theorem Served.exists_holder (h : l.Served) {user : Nat × LockMode} (huser : user ∈ l.users) :
    ∃ holder, holder ∈ l.holders := by
  apply List.exists_mem_of_ne_nil
  intro hnone
  rw [users, hnone, h.queue_eq_nil hnone] at huser
  cases huser

/-- Nobody waits for a lock that all its users share. -/
theorem Served.queue_eq_nil_of_shared (h : l.Served)
    (hshared : ∀ user ∈ l.users, user.2 = .shared) :
    l.queue = [] := by
  cases hqueue : l.queue with
  | nil => rfl
  | cons request queue =>
    -- the first request agrees with the holders
    have hrefused := h request (by rw [hqueue]; rfl)
    have hmode : request.2 = .shared :=
      hshared request (List.mem_append_right _ (by rw [hqueue]; exact List.mem_cons_self))
    rw [hmode, admits, List.all_eq_false] at hrefused
    obtain ⟨holder, hholder, hexclusive⟩ := hrefused
    exact absurd (by simp [hshared holder (List.mem_append_left _ hholder)]) hexclusive

end FairLock

namespace NameLocks

variable {l : NameLocks} {user? : Nat → Option String} {id object : Nat} {name : String}
  {mode : LockMode}

/-- Every lock is served. -/
def Served (l : NameLocks) : Prop := ∀ object, (l.lockAt object).Served

theorem served_empty : empty.Served := fun _ => FairLock.served_idle

theorem Served.prune (h : l.Served) : l.prune.Served := by
  intro object
  rw [lockAt_prune]
  split
  · exact h object
  · exact FairLock.served_idle

theorem Served.obtain (h : l.Served) (id : Nat) (name : String) : (l.obtain id name).Served := by
  intro object
  cases htable : l.prune.table.find? name with
  | some other =>
    rw [obtain_of_some htable]
    exact h.prune object
  | none =>
    -- a new lock is idle
    have hlock := lockAt_insert l.prune l.prune.references l.prune.fresh object .idle
    rw [obtain_of_none htable]
    change FairLock.Served (NameLocks.lockAt { l.prune with objects := _ } object)
    rw [hlock]
    split
    · exact FairLock.served_idle
    · exact h.prune object

theorem Served.request (h : l.Served) (id : Nat) (mode : LockMode) :
    (l.request id mode).Served := by
  intro object
  cases href : l.references.find? id with
  | none =>
    rw [NameLocks.request, object?_eq, href]
    exact h object
  | some other =>
    rw [request_eq href, lockAt_insert]
    split
    · exact FairLock.served_serve _ _
    · exact h object

theorem Served.leave (h : l.Served) (id : Nat) : (l.leave id).Served := by
  intro object
  cases href : l.references.find? id with
  | none =>
    rw [NameLocks.leave, object?_eq, href]
    exact h object
  | some other =>
    rw [leave_eq href, lockAt_insert]
    split
    · exact FairLock.served_serve _ _
    · exact h object

/-- A user asks for its lock in one way. -/
theorem Agrees.mode_eq_of_askedBy (h : l.Agrees user?) {mode' : LockMode}
    (hasked : l.AskedBy id mode) (hasked' : l.AskedBy id mode') : mode = mode' := by
  obtain ⟨object, href, hmem⟩ := hasked
  obtain ⟨object', href', hmem'⟩ := hasked'
  obtain rfl : object = object' := Option.some.inj (href.symm.trans href')
  exact (h.sound object).mode_unique hmem hmem'

/-- Whoever has left has asked for nothing. -/
theorem not_askedBy_leave (href : l.references.find? id = some object) :
    ¬(l.leave id).AskedBy id mode := by
  rintro ⟨object', href', -⟩
  rw [leave_eq href] at href'
  simp at href'

/-- Somebody waits in the queue of the lock of a name. -/
def QueuesFor (l : NameLocks) (name : String) (id : Nat) (mode : LockMode) : Prop :=
  ∃ object, l.table.find? name = some object ∧ (id, mode) ∈ (l.lockAt object).queue

/-- Somebody holds the lock of a name. -/
def HoldsLockOf (l : NameLocks) (name : String) (id : Nat) (mode : LockMode) : Prop :=
  ∃ object, l.table.find? name = some object ∧ (id, mode) ∈ (l.lockAt object).holders

/-- Whoever refers to the lock object of a name uses that name. -/
theorem Agrees.user?_of_reference (h : l.Agrees user?) (htable : l.table.find? name = some object)
    (href : l.references.find? id = some object) : user? id = some name := by
  obtain ⟨n, hn⟩ := h.used id object href
  rwa [← h.injective n name object (h.table_of_reference hn href) htable]

/-- Who has asked for the lock of its name and does not hold it waits in the queue of that lock,
which another user of the name holds. -/
theorem Agrees.exists_holder (h : l.Agrees user?) (hserved : l.Served)
    (huser : user? id = some name) (hasked : l.AskedBy id mode) (hwaits : l.isHeldBy id = false) :
    l.QueuesFor name id mode ∧
      ∃ j mode', j ≠ id ∧ user? j = some name ∧ l.HoldsLockOf name j mode' := by
  obtain ⟨object, href, hmem⟩ := hasked
  have htable := h.table_of_reference huser href
  -- the one that asked holds nothing
  have hfree (m : LockMode) : (id, m) ∉ (l.lockAt object).holders := by
    intro hholder
    rw [isHeldBy, object?_eq, href] at hwaits
    exact Bool.eq_false_iff.1 hwaits (FairLock.isHeldBy_iff.2 ⟨m, hholder⟩)
  obtain ⟨⟨j, mode'⟩, hholder⟩ := (hserved object).exists_holder hmem
  refine ⟨⟨object, htable, (List.mem_append.1 hmem).resolve_left (hfree mode)⟩, j, mode', ?_, ?_,
    object, htable, hholder⟩
  · rintro rfl
    exact hfree mode' hholder
  · exact h.user?_of_reference htable
      (h.referring object j mode' (List.mem_append_left _ hholder))

/-- Who has asked for a lock that all users of its name share holds it. -/
theorem Agrees.isHeldBy_of_shared (h : l.Agrees user?) (hserved : l.Served)
    (huser : user? id = some name) (hasked : l.AskedBy id mode)
    (hshared : ∀ j m, user? j = some name → l.AskedBy j m → m = .shared) :
    l.isHeldBy id = true := by
  obtain ⟨object, href, hmem⟩ := hasked
  have htable := h.table_of_reference huser href
  have hqueue : (l.lockAt object).queue = [] := by
    refine (hserved object).queue_eq_nil_of_shared fun ⟨j, m⟩ hj => ?_
    have hjref := h.referring object j m hj
    exact hshared j m (h.user?_of_reference htable hjref) ⟨object, hjref, hj⟩
  rw [FairLock.users, hqueue, List.append_nil] at hmem
  rw [isHeldBy, object?_eq, href]
  exact FairLock.isHeldBy_iff.2 ⟨mode, hmem⟩

/-- Who is alone holds the lock that it asked for. -/
theorem Agrees.isHeldBy_of_alone (h : l.Agrees user?) (hserved : l.Served)
    (hasked : l.AskedBy id mode) (halone : ∀ j, j ≠ id → user? j = none) :
    l.isHeldBy id = true := by
  obtain ⟨object, href, huser⟩ := hasked
  obtain ⟨⟨j, mode'⟩, hholder⟩ := (hserved object).exists_holder huser
  -- the holder refers to the lock, and nobody else does
  have hj : j = id := by
    by_contra hne
    obtain ⟨name, hname⟩ := h.used j object
      (h.referring object j mode' (List.mem_append_left _ hholder))
    rw [halone j hne] at hname
    cases hname
  subst hj
  rw [isHeldBy, object?_eq, href]
  exact FairLock.isHeldBy_iff.2 ⟨mode', hholder⟩

end NameLocks

end Keyring
