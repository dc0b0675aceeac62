import Mathlib.Data.List.Nodup
import Mathlib.Tactic.Common
import Keyring.Lock.Fair

/-!
# Fair locks exclude

The users of a fair lock are its holders and those who wait for it. Asking adds one user at the
end and leaving takes one away; serving the queue only moves users from the waiting to the holding
ones.

* `users_serve`, `users_request`, `users_leave` — who uses the lock after each operation;
* `Sound` — two different holders both share the lock, and nobody is a user twice;
* `Sound.request`, `Sound.leave` — the operations keep that.
-/

namespace Keyring.FairLock

variable {l : FairLock} {id : Nat} {mode : LockMode}

/-- Those who hold the lock or wait for it, the first to come first. -/
def users (l : FairLock) : List (Nat × LockMode) := l.holders ++ l.queue

/-- Two different holders both share. -/
def Agree (holders : List (Nat × LockMode)) : Prop :=
  ∀ a ∈ holders, ∀ b ∈ holders, a ≠ b → a.2 = .shared ∧ b.2 = .shared

/-- A lock whose holders agree and whose users are all different. -/
structure Sound (l : FairLock) : Prop where
  /-- Two different holders both share. -/
  agree : Agree l.holders
  /-- Nobody is a user twice. -/
  distinct : (l.users.map Prod.fst).Nodup

theorem sound_idle : idle.Sound :=
  ⟨fun _ ha => absurd ha List.not_mem_nil, List.nodup_nil⟩

/-- Serving the queue changes the users neither in number nor in order. -/
@[simp] theorem users_serve (holders queue : List (Nat × LockMode)) :
    (serve holders queue).users = holders ++ queue := by
  -- whoever is first in the queue becomes the last holder, or the queue stays
  induction queue generalizing holders with
  | nil => simp [serve, users]
  | cons request queue ih =>
    unfold serve
    split
    · rw [ih, List.append_assoc, List.singleton_append]
    · rfl

@[simp] theorem users_request (l : FairLock) (id : Nat) (mode : LockMode) :
    (l.request id mode).users = l.users ++ [(id, mode)] := by
  rw [request, users_serve, users, List.append_assoc]

@[simp] theorem users_leave (l : FairLock) (id : Nat) :
    (l.leave id).users = l.users.filter fun u => u.1 ≠ id := by
  rw [leave, users_serve, users, List.filter_append]

/-- One more holder that is admitted agrees with the others. -/
theorem Agree.append {holders : List (Nat × LockMode)} {request : Nat × LockMode}
    (h : Agree holders) (hadmits : admits holders request.2 = true) :
    Agree (holders ++ [request]) := by
  intro a ha b hb hne
  rw [List.mem_append, List.mem_singleton] at ha hb
  cases hmode : request.2 with
  | shared =>
    -- a reader is admitted beside readers only
    have hshared : ∀ c ∈ holders, c.2 = .shared := by simpa [admits, hmode] using hadmits
    constructor
    · rcases ha with ha | rfl
      exacts [hshared a ha, hmode]
    · rcases hb with hb | rfl
      exacts [hshared b hb, hmode]
  | exclusive =>
    -- a writer is admitted when nobody holds the lock
    have hnil : holders = [] := by simpa [admits, hmode] using hadmits
    subst hnil
    simp only [List.not_mem_nil, false_or] at ha hb
    exact absurd (ha.trans hb.symm) hne

/-- Serving the queue keeps agreement. -/
theorem Agree.serve {holders : List (Nat × LockMode)} (h : Agree holders)
    (queue : List (Nat × LockMode)) : Agree (serve holders queue).holders := by
  induction queue generalizing holders with
  | nil => exact h
  | cons request queue ih =>
    unfold FairLock.serve
    split
    case isTrue hadmits => exact ih (h.append hadmits)
    case isFalse => exact h

/-- Whoever holds the lock goes on holding it while the queue is served. -/
theorem mem_holders_serve {holders : List (Nat × LockMode)} {u : Nat × LockMode}
    (h : u ∈ holders) (queue : List (Nat × LockMode)) : u ∈ (serve holders queue).holders := by
  induction queue generalizing holders with
  | nil => exact h
  | cons request queue ih =>
    unfold serve
    split
    · exact ih (List.mem_append_left _ h)
    · exact h

/-- Whoever holds the lock goes on holding it when somebody asks for it. -/
theorem mem_holders_request {u : Nat × LockMode} (h : u ∈ l.holders) :
    u ∈ (l.request id mode).holders :=
  mem_holders_serve h _

/-- Whoever holds the lock goes on holding it when somebody else leaves. -/
theorem mem_holders_leave {u : Nat × LockMode} (h : u ∈ l.holders) (hne : u.1 ≠ id) :
    u ∈ (l.leave id).holders :=
  mem_holders_serve (List.mem_filter.2 ⟨h, by simpa using hne⟩) _

/-- Asking keeps a lock sound if one does not use it yet. -/
theorem Sound.request (h : l.Sound) (hnew : ∀ m, (id, m) ∉ l.users) :
    (l.request id mode).Sound where
  agree := h.agree.serve _
  distinct := by
    rw [users_request, List.map_append, List.nodup_append]
    -- the new user is none of the old ones
    refine ⟨h.distinct, List.nodup_singleton _, ?_⟩
    intro a ha b hb hab
    obtain ⟨⟨i, m⟩, hu, rfl⟩ := List.mem_map.1 ha
    obtain rfl : b = id := by simpa using hb
    exact hnew m (hab ▸ hu)

theorem Sound.leave (h : l.Sound) (id : Nat) : (l.leave id).Sound where
  agree := by
    refine Agree.serve (fun a ha b hb hne => ?_) _
    exact h.agree a (List.mem_of_mem_filter ha) b (List.mem_of_mem_filter hb) hne
  distinct := by
    rw [users_leave]
    exact (List.filter_sublist.map Prod.fst).nodup h.distinct

/-- A user of a sound lock uses it in one way. -/
theorem Sound.mode_unique (h : l.Sound) {m m' : LockMode} (hm : (id, m) ∈ l.users)
    (hm' : (id, m') ∈ l.users) : m = m' := by
  have hinj := List.inj_on_of_nodup_map h.distinct hm hm' rfl
  exact congrArg Prod.snd hinj

theorem isHeldBy_iff : l.isHeldBy id = true ↔ ∃ mode, (id, mode) ∈ l.holders := by
  simp [isHeldBy]

/-- A user that is found to hold the lock holds it in the way it asked for. -/
theorem Sound.mem_holders (h : l.Sound) (huser : (id, mode) ∈ l.users)
    (hheld : l.isHeldBy id = true) : (id, mode) ∈ l.holders := by
  obtain ⟨mode', hmode'⟩ := isHeldBy_iff.1 hheld
  rwa [h.mode_unique huser (List.mem_append_left _ hmode')]

end Keyring.FairLock
