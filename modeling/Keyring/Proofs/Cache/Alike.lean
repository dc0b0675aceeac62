import Keyring.Cache.Swept
import Keyring.Proofs.Secret.Alike

/-!
# Caches that differ in secrets

The cache looks at the times of its entries and never at their secrets. Whatever is done with two
caches that hold secrets of one size under the same names, put in and used at the same times, they
stay so, and what is looked up in them has one size.

- `Cache.Entry.Alike`, `SweptCache.Alike`: caches that differ in the bytes of secrets only;
- `SweptCache.Alike.get`, `SweptCache.Alike.set`, `SweptCache.Alike.add`, …: what is done with them
  keeps them so.
-/

namespace Keyring

/-- Two entries with the same times and secrets of one size. -/
structure Cache.Entry.Alike (a b : Cache.Entry) : Prop where
  secret : a.secret.Alike b.secret
  createdAt : a.createdAt = b.createdAt
  lastUsed : a.lastUsed = b.lastUsed

/-- Two caches with the same sweeps at the same time and entries that are alike. -/
structure SweptCache.Alike (c d : SweptCache) : Prop where
  now : c.now = d.now
  dropped : c.dropped = d.dropped
  sweeps : c.sweeps = d.sweeps
  entries : ∀ name, Option.Rel Cache.Entry.Alike (c.cache.entries.find? name)
    (d.cache.entries.find? name)

namespace SweptCache.Alike

variable {c d : SweptCache} {secret secret' : Secret}

theorem refl_new (now : Nat) : (SweptCache.new now).Alike (.new now) :=
  ⟨rfl, rfl, rfl, fun _ => .none⟩

/-- Looking a name up finds secrets of one size, or nothing in both. -/
theorem get (h : c.Alike d) (name : String) :
    Option.Rel Secret.Alike (c.get name).1 (d.get name).1 ∧
      (c.get name).2.Alike (d.get name).2 := by
  have hentry := h.entries name
  unfold SweptCache.get Cache.get
  generalize hc : c.cache.entries.find? name = entry at *
  generalize hd : d.cache.entries.find? name = entry' at *
  cases hentry with
  | none => exact ⟨.none, h⟩
  | some hentry =>
    refine ⟨.some hentry.secret, ⟨h.now, h.dropped, h.sweeps, fun other => ?_⟩⟩
    simp only [FiniteMap.find?_insert]
    split
    · exact .some ⟨hentry.secret, hentry.createdAt, h.now⟩
    · exact h.entries other

theorem set (h : c.Alike d) (name : String) (hsecret : secret.Alike secret') :
    (c.set name secret).Alike (d.set name secret') := by
  refine ⟨h.now, h.dropped, h.sweeps, fun other => ?_⟩
  simp only [SweptCache.set, Cache.set, FiniteMap.find?_insert]
  split
  · exact .some ⟨hsecret, h.now, h.now⟩
  · exact h.entries other

/-- Putting in unless there is something leaves secrets of one size. -/
theorem add (h : c.Alike d) (name : String) (hsecret : secret.Alike secret') :
    (c.add name secret).1.1.Alike (d.add name secret').1.1 ∧
      (c.add name secret).2.Alike (d.add name secret').2 := by
  have hentry := h.entries name
  unfold SweptCache.add Cache.add
  generalize hc : c.cache.entries.find? name = entry at *
  generalize hd : d.cache.entries.find? name = entry' at *
  cases hentry with
  | none => exact ⟨hsecret, h.set name hsecret⟩
  | some hentry => exact ⟨hentry.secret, h⟩

theorem erase (h : c.Alike d) (name : String) : (c.erase name).Alike (d.erase name) := by
  refine ⟨h.now, h.dropped, h.sweeps, fun other => ?_⟩
  simp only [SweptCache.erase, Cache.erase, FiniteMap.find?_erase]
  split
  · exact .none
  · exact h.entries other

/-- They have the same number of entries. -/
theorem size_eq (h : c.Alike d) : c.cache.size = d.cache.size :=
  FiniteMap.size_eq_of_isSome_eq fun name => by
    have hentry := h.entries name
    generalize c.cache.entries.find? name = entry at *
    generalize d.cache.entries.find? name = entry' at *
    cases hentry <;> rfl

theorem wait (h : c.Alike d) (duration : Nat) :
    ({ c with now := c.now + duration } : SweptCache).Alike { d with now := d.now + duration } :=
  ⟨congrArg (· + duration) h.now, h.dropped, h.sweeps, h.entries⟩

/-! ### Sweeps -/

theorem startSweep (h : c.Alike d) (policy : Sweep.Policy) (expiry : Nat) :
    (c.startSweep policy expiry).2.Alike (d.startSweep policy expiry).2 := by
  unfold SweptCache.startSweep
  rw [h.now]
  split
  · exact h
  · exact ⟨rfl, h.dropped, congrArg (· ++ _) h.sweeps, h.entries⟩

theorem beginSweep (h : c.Alike d) (i : Nat) : (c.beginSweep i).Alike (d.beginSweep i) := by
  unfold SweptCache.beginSweep
  rw [h.now, h.dropped, h.sweeps]
  split
  · exact h
  · exact ⟨rfl, rfl, rfl, h.entries⟩

/-- What was too old at a time goes from both. -/
theorem retain (h : c.Alike d) (policy : Sweep.Policy) (now expiry : Nat) (name : String) :
    Option.Rel Cache.Entry.Alike
      ((c.cache.retain fun e => policy.age now e < expiry).entries.find? name)
      ((d.cache.retain fun e => policy.age now e < expiry).entries.find? name) := by
  have hentry := h.entries name
  simp only [Cache.retain, FiniteMap.find?_filter]
  generalize c.cache.entries.find? name = entry at *
  generalize d.cache.entries.find? name = entry' at *
  cases hentry with
  | none => exact .none
  | @some a b hentry =>
    have hage : policy.age now a = policy.age now b := by
      cases policy with
      | created => exact congrArg (now - ·) hentry.createdAt
      | unused => exact congrArg (now - ·) hentry.lastUsed
    simp only [Option.filter_some, hage]
    split
    · exact .some hentry
    · exact .none

theorem finishSweep (h : c.Alike d) (i : Nat) : (c.finishSweep i).Alike (d.finishSweep i) := by
  unfold SweptCache.finishSweep
  rw [h.sweeps]
  cases d.sweeps[i]? with
  | none => exact h
  | some sweep =>
    obtain ⟨policy, expiry, period, hperiod, phase⟩ := sweep
    cases phase with
    | clearing clock deadline => exact ⟨h.now, h.dropped, rfl, h.retain policy clock expiry⟩
    | waiting | ended | failed => exact ⟨h.now, h.dropped, rfl, h.entries⟩

end SweptCache.Alike

end Keyring
