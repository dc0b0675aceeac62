import Keyring.Cache.Swept

/-!
# Sweeps that are due

Time that passes runs the sweeps that are due, one run after the other. What every run keeps holds
after them, and no run puts anything into the cache.

- `Sweep.find?_finish`: a sweep only removes entries;
- `SweptCache.runDue_invariant`: what every run of a sweep keeps;
- `SweptCache.Fades`: a cache that has lost entries, at most;
- `SweptCache.fades_advance`, `SweptCache.fades_jump`: time only takes entries away.
-/

namespace Keyring

namespace Sweep

/-- An entry that a sweep leaves was there before. -/
theorem find?_finish {s : Sweep} {c : Cache} {name : String} {secret : Secret}
    (h : (s.finish c).2.find? name = some secret) : c.find? name = some secret := by
  unfold finish at h
  split at h
  case h_1 =>
    simp only [Cache.find?, Cache.retain, FiniteMap.find?_filter, Option.map_eq_some_iff,
      Option.filter_eq_some_iff] at h
    obtain ⟨entry, ⟨hentry, -⟩, rfl⟩ := h
    rw [Cache.find?, hentry]
    rfl
  -- a sweep that has not read the clock removes nothing
  case h_2 => exact h

end Sweep

namespace SweptCache

variable {c : SweptCache} {t : Nat}

theorem runDue_of_none (h : c.first? = none) : c.runDue t = c := by
  rw [runDue]
  split
  · rfl
  · next heq => cases h.symm.trans heq

theorem runDue_of_due {i wake : Nat} (h : c.first? = some (i, wake)) (hdue : wake ≤ t) :
    c.runDue t = (c.runSweep (max c.now wake) i).runDue t := by
  rw [runDue]
  split
  · next heq => cases h.symm.trans heq
  · next heq =>
    obtain ⟨rfl, rfl⟩ := Prod.mk.inj (Option.some.inj (h.symm.trans heq))
    rw [dif_pos hdue]

theorem runDue_of_later {i wake : Nat} (h : c.first? = some (i, wake)) (hlater : ¬wake ≤ t) :
    c.runDue t = c := by
  rw [runDue]
  split
  · rfl
  · next heq =>
    obtain ⟨rfl, rfl⟩ := Prod.mk.inj (Option.some.inj (h.symm.trans heq))
    rw [dif_neg hlater]

/-- What every run of a sweep that is due keeps holds after all of them. -/
theorem runDue_invariant {P : SweptCache → Prop}
    (hrun : ∀ c i wake, c.first? = some (i, wake) → wake ≤ t → P c →
      P (c.runSweep (max c.now wake) i))
    (hc : P c) : P (c.runDue t) := by
  induction c using runDue.induct (t := t) with
  | case1 c hnone => rwa [runDue_of_none hnone]
  | case2 c i wake hfirst hdue _ ih =>
    rw [runDue_of_due hfirst hdue]
    exact ih (hrun c i wake hfirst hdue hc)
  | case3 c i wake hfirst hlater => rwa [runDue_of_later hfirst hlater]

/-- A cache holds what another one holds, at most. -/
def Fades (c d : SweptCache) : Prop :=
  ∀ name secret, d.cache.find? name = some secret → c.cache.find? name = some secret

theorem fades_runDue (c : SweptCache) (t : Nat) : c.Fades (c.runDue t) := by
  refine runDue_invariant (P := c.Fades) (fun d i wake _ _ hd name secret h => hd name secret ?_)
    fun name secret h => h
  unfold runSweep at h
  split at h
  · exact h
  · exact Sweep.find?_finish h

/-- Time that passes only takes entries away. -/
theorem fades_advance (c : SweptCache) (duration : Nat) : c.Fades (c.advance duration) :=
  fades_runDue c (c.now + duration)

theorem fades_jump (c : SweptCache) (duration : Nat) : c.Fades (c.jump duration) :=
  fades_runDue { c with now := c.now + duration } (c.now + duration)

end SweptCache

end Keyring
