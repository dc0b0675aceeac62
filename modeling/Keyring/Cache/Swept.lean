import Keyring.Cache.Sweep

/-!
# Caches with sweeps

A cache together with the clock and with the sweeps that were started on it. Time passes in two
ways. `advance` lets it pass continuously, so that every sweep runs at its time; `jump` moves the
clock at once, and the sweeps that are overdue then run at the new time.
-/

namespace Keyring

/-- A cache with its clock and its sweeps. -/
structure SweptCache where
  /-- The current time. -/
  now : Nat
  /-- The cache. -/
  cache : Cache
  /-- Whether the cache is gone. -/
  dropped : Bool
  /-- The sweeps, in the order in which they were started. -/
  sweeps : List Sweep

namespace SweptCache

/-- An empty cache without sweeps, at a time. -/
def new (now : Nat) : SweptCache := ⟨now, .empty, false, []⟩

/-- Look a name up; a hit counts as use. -/
def get (c : SweptCache) (name : String) : Option Secret × SweptCache :=
  ((c.cache.get c.now name).1, { c with cache := (c.cache.get c.now name).2 })

/-- Put a secret in, in place of what was there. -/
def set (c : SweptCache) (name : String) (secret : Secret) : SweptCache :=
  { c with cache := c.cache.set c.now name secret }

/-- Put a secret in unless there is one. -/
def add (c : SweptCache) (name : String) (secret : Secret) : (Secret × Bool) × SweptCache :=
  ((c.cache.add c.now name secret).1, { c with cache := (c.cache.add c.now name secret).2 })

/-- Remove a name. -/
def erase (c : SweptCache) (name : String) : SweptCache :=
  { c with cache := c.cache.erase name }

/-- Let go of the cache. Its entries are gone, and each sweep ends at its next run. -/
def drop (c : SweptCache) : SweptCache := { c with cache := .empty, dropped := true }

/-- Start a sweep, and tell whether there is one: an expiry of zero starts none. -/
def startSweep (c : SweptCache) (policy : Sweep.Policy) (expiry : Nat) : Bool × SweptCache :=
  match Sweep.start? policy c.now expiry with
  | none => (false, c)
  | some s => (true, { c with sweeps := c.sweeps ++ [s] })

/-- Let a sweep read the clock. -/
def beginSweep (c : SweptCache) (i : Nat) : SweptCache :=
  match c.sweeps[i]? with
  | none => c
  | some s => { c with sweeps := c.sweeps.set i (s.begin c.now c.dropped) }

/-- Let a sweep that has read the clock remove entries. -/
def finishSweep (c : SweptCache) (i : Nat) : SweptCache :=
  match c.sweeps[i]? with
  | none => c
  | some s =>
    { c with sweeps := c.sweeps.set i (s.finish c.cache).1, cache := (s.finish c.cache).2 }

/-- A whole run of a sweep at a time. -/
def runSweep (c : SweptCache) (now : Nat) (i : Nat) : SweptCache :=
  match c.sweeps[i]? with
  | none => c
  | some s =>
    { c with
      now
      sweeps := c.sweeps.set i (s.run now c.dropped c.cache).1
      cache := (s.run now c.dropped c.cache).2 }

/-- The sweep that is to run first, with its time, among sweeps that are numbered from `i` on. -/
def firstFrom (i : Nat) : List Sweep → Option (Nat × Nat)
  | [] => none
  | s :: sweeps =>
    match s.wake?, firstFrom (i + 1) sweeps with
    | none, other => other
    | some wake, none => some (i, wake)
    | some wake, some (j, wake') => if wake ≤ wake' then some (i, wake) else some (j, wake')

/-- The sweep that is to run first, with its time. -/
def first? (c : SweptCache) : Option (Nat × Nat) := firstFrom 0 c.sweeps

/-- How much of the time up to `t` all sweeps have yet to run for. -/
def backlog (t : Nat) (c : SweptCache) : Nat := c.sweeps.foldr (fun s n => s.backlog t + n) 0

private theorem foldr_set_lt {f : Sweep → Nat} {l : List Sweep} {i : Nat} {a b : Sweep}
    (h : l[i]? = some a) (hlt : f b < f a) :
    (l.set i b).foldr (fun s n => f s + n) 0 < l.foldr (fun s n => f s + n) 0 := by
  induction l generalizing i with
  | nil => simp at h
  | cons x l ih =>
    cases i with
    | zero =>
      simp at h
      subst h
      simp
      omega
    | succ i =>
      have := ih (i := i) (by simpa using h)
      simp only [List.set_cons_succ, List.foldr_cons]
      omega

theorem firstFrom_eq_some {l : List Sweep} {i j : Nat} {wake : Nat}
    (h : firstFrom i l = some (j, wake)) :
    ∃ s, i ≤ j ∧ l[j - i]? = some s ∧ s.wake? = some wake := by
  induction l generalizing i with
  | nil => cases h
  | cons x l ih =>
    have tail (h' : firstFrom (i + 1) l = some (j, wake)) :
        ∃ s, i ≤ j ∧ (x :: l)[j - i]? = some s ∧ s.wake? = some wake := by
      obtain ⟨s, hij, hs, hw⟩ := ih h'
      refine ⟨s, by omega, ?_, hw⟩
      rw [show j - i = (j - (i + 1)) + 1 by omega, List.getElem?_cons_succ]
      exact hs
    unfold firstFrom at h
    split at h
    · exact tail h
    · next hx _ => cases h; exact ⟨x, Nat.le_refl _, by simp, hx⟩
    · next hx hl =>
      split at h
      · cases h; exact ⟨x, Nat.le_refl _, by simp, hx⟩
      · exact tail (hl.trans h)

theorem first?_eq_some {c : SweptCache} {i : Nat} {wake : Nat} (h : c.first? = some (i, wake)) :
    ∃ s, c.sweeps[i]? = some s ∧ s.wake? = some wake := by
  obtain ⟨s, -, hs, hw⟩ := firstFrom_eq_some h
  exact ⟨s, by simpa using hs, hw⟩

/-- Running the first sweep reduces the backlog. -/
theorem backlog_runSweep_lt {c : SweptCache} {t now wake : Nat} {i : Nat}
    (h : c.first? = some (i, wake)) (hn : wake ≤ now) (ht : wake ≤ t) :
    (c.runSweep now i).backlog t < c.backlog t := by
  obtain ⟨s, hs, hw⟩ := first?_eq_some h
  unfold runSweep
  rw [hs]
  exact foldr_set_lt hs (Sweep.backlog_run_lt hw hn ht)

/-- Run, one after the other, all sweeps that are due up to a time: each at its own time or, if
that has passed, now. -/
def runDue (c : SweptCache) (t : Nat) : SweptCache :=
  match h : c.first? with
  | none => c
  | some (i, wake) =>
    if ht : wake ≤ t then
      have := backlog_runSweep_lt h (Nat.le_max_right c.now wake) ht
      runDue (c.runSweep (max c.now wake) i) t
    else c
termination_by c.backlog t

/-- Let time pass continuously up to a time. -/
def advanceTo (c : SweptCache) (t : Nat) : SweptCache :=
  let c := c.runDue t
  { c with now := max c.now t }

/-- Let time pass continuously. -/
def advance (c : SweptCache) (duration : Nat) : SweptCache := c.advanceTo (c.now + duration)

/-- Move the clock at once; sweeps that are overdue then run. -/
def jump (c : SweptCache) (duration : Nat) : SweptCache :=
  let now := c.now + duration
  { c with now }.runDue now

end SweptCache

end Keyring
