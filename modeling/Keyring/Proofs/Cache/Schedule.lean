import Keyring.Proofs.Cache.Due

/-!
# How long entries stay

A sweep by age removes what has reached the expiry, and runs once in as long a time. So it leaves
younger entries alone, and when none of its runs is due there is no entry that is twice as old. The
clock may be ahead of a run by a part of a millisecond, since timers fire at whole ones.

- `SweptCache.held?`, `SweptCache.Quiet`: the entry of a name, and a cache with no run that is due;
- `Sweep.Awaits`, `SweptCache.Timely`: a sweep by age, and a cache with one that is on time;
- `SweptCache.Timely.runDue`, `SweptCache.lt_wake_runDue`: the runs that are due keep it on time,
  and none stays due;
- `SweptCache.Timely.lt_of_held?`: no entry is twice as old as the expiry;
- `SweptCache.ByAge.runDue`: where there is no other sweep, entries stay until the expiry.
-/

namespace Keyring

theorem Time.after?_of_lt {start duration : Nat} (h : start + duration < limit) :
    after? start duration = some (start + duration) := by
  unfold after?
  exact if_pos h

/-- A timer for an instant fires less than a millisecond after it. -/
theorem Time.lt_of_lt_roundUp {t now : Nat} (h : now < roundUp t) :
    now < t + now % millisecond := by
  have hmillisecond : millisecond = 1000000 := rfl
  rw [roundUp, hmillisecond] at h
  rw [hmillisecond]
  omega

namespace Sweep

variable {s : Sweep} {c : Cache} {now deadline next : Nat} {gone : Bool} {name : String}
  {e : Cache.Entry}

/-- A sweep by age that runs once in the time of its expiry and waits for a deadline. -/
structure Awaits (s : Sweep) (age deadline : Nat) : Prop where
  policy : s.policy = .created
  expiry : s.expiry = age
  period : s.period = age
  phase : s.phase = .waiting deadline

/-- As long as the clock can tell it, the next deadline is one period after the run if that was
late, and after the last deadline otherwise. -/
theorem next?_eq (hclock : now + s.period + tolerance < Time.limit) (hdue : deadline ≤ now) :
    s.next? now deadline =
      if deadline + tolerance < now then some (now + s.period) else some (deadline + s.period) := by
  have hlate : Time.after? deadline tolerance = some (deadline + tolerance) :=
    Time.after?_of_lt (Nat.lt_of_le_of_lt (by omega) hclock)
  have hnext : Time.after? deadline s.period = some (deadline + s.period) :=
    Time.after?_of_lt (Nat.lt_of_le_of_lt (by omega) hclock)
  have hfrom : Time.after? now s.period = some (now + s.period) :=
    Time.after?_of_lt (Nat.lt_of_le_of_lt (by omega) hclock)
  rw [next?, hlate, Option.bind_some, hfrom, hnext, Option.some_or]

/-- The next deadline is at most one period away. -/
theorem exists_next? (hclock : now + s.period + tolerance < Time.limit) (hdue : deadline ≤ now) :
    ∃ next, s.next? now deadline = some next ∧ next ≤ now + s.period := by
  rw [next?_eq hclock hdue]
  by_cases hlate : deadline + tolerance < now
  · exact ⟨_, if_pos hlate, Nat.le_refl _⟩
  · exact ⟨_, if_neg hlate, Nat.add_le_add_right hdue _⟩

/-- A run of a waiting sweep that has a next deadline. -/
theorem run_waiting (hphase : s.phase = .waiting deadline)
    (hnext : s.next? now deadline = some next) (c : Cache) :
    s.run now false c =
      ({ s with phase := .waiting next }, c.retain fun e => s.policy.age now e < s.expiry) := by
  have hbegin : s.begin now false = { s with phase := .clearing now next } := by
    simp only [begin, hphase]
    rw [hnext]
    rfl
  rw [run, hbegin, finish]

/-- A whole run removes nothing, or what is too old when it is made. -/
theorem run_cases (hphase : ∀ clock deadline, s.phase ≠ .clearing clock deadline) (now : Nat)
    (gone : Bool) (c : Cache) :
    ((s.run now gone c).2 = c ∨
        (s.run now gone c).2 = c.retain fun e => s.policy.age now e < s.expiry) ∧
      ((s.run now gone c).1.policy = s.policy ∧ (s.run now gone c).1.expiry = s.expiry ∧
        ∀ clock deadline, (s.run now gone c).1.phase ≠ .clearing clock deadline) := by
  cases hs : s.phase with
  | waiting deadline =>
    simp only [run, begin, hs]
    cases s.next? now deadline <;> cases gone <;> simp [Phase.begun, finish]
  | clearing clock deadline => exact absurd hs (hphase clock deadline)
  | ended | failed => simp [run, begin, finish, hs]

theorem find?_retain (c : Cache) (keep : Cache.Entry → Bool) (name : String) :
    (c.retain keep).entries.find? name = (c.entries.find? name).filter keep :=
  FiniteMap.find?_filter _ _ _

/-- A run puts no entry into the cache. -/
theorem find?_of_run (h : (s.run now gone c).2.entries.find? name = some e) :
    c.entries.find? name = some e := by
  unfold run finish at h
  split at h
  · rw [find?_retain, Option.filter_eq_some_iff] at h
    exact h.1
  · exact h

/-- A sweep that has just been started is not due. -/
theorem lt_wake_of_start? {policy : Policy} {expiry wake : Nat}
    (h : start? policy now expiry = some s) (hwake : s.wake? = some wake) : now < wake := by
  unfold start? at h
  split at h
  case isFalse => cases h
  case isTrue hexpiry =>
    cases h
    have hperiod := policy.period_pos hexpiry
    cases hnext : Time.after? now (policy.period expiry) with
    | none => simp [wake?, hnext, Phase.await] at hwake
    | some next =>
      simp only [wake?, hnext, Phase.await, Option.some.injEq] at hwake
      have hle := Time.le_roundUp next
      have heq := Time.after?_eq_some hnext
      omega

end Sweep

namespace SweptCache

variable {c d : SweptCache} {expiry t wake i : Nat} {name : String} {e : Cache.Entry}

/-- The entry of a name. -/
def held? (c : SweptCache) (name : String) : Option Cache.Entry := c.cache.entries.find? name

/-- When the entry of a name was put in. -/
def stamp? (c : SweptCache) (name : String) : Option Nat := (c.held? name).map Cache.Entry.createdAt

/-- No run of a sweep is due. -/
def Quiet (c : SweptCache) : Prop := ∀ s ∈ c.sweeps, ∀ wake, s.wake? = some wake → c.now < wake

/-- The first sweep is one by age and on time: its deadline is at most an expiry away, and less than
two of them after any entry was put in. -/
structure Timely (c : SweptCache) (expiry : Nat) : Prop where
  kept : c.dropped = false
  past : ∀ name e, c.held? name = some e → e.createdAt ≤ c.now
  awaits : ∃ s deadline, c.sweeps[0]? = some s ∧ s.Awaits expiry deadline ∧
    deadline ≤ c.now + expiry ∧
    ∀ name e, c.held? name = some e → deadline < e.createdAt + 2 * expiry

/-- All sweeps are by age, and none has read the clock. -/
def ByAge (c : SweptCache) (expiry : Nat) : Prop :=
  ∀ s ∈ c.sweeps, s.policy = .created ∧ s.expiry = expiry ∧
    ∀ clock deadline, s.phase ≠ .clearing clock deadline

/-! ### Stamps -/

@[simp] theorem stamp?_get (c : SweptCache) (a b : String) : (c.get a).2.stamp? b = c.stamp? b := by
  unfold SweptCache.get Cache.get stamp? held?
  split
  · rfl
  · next entry h => by_cases hb : b = a <;> simp [hb, h]

@[simp] theorem stamp?_set (c : SweptCache) (a b : String) (secret : Secret) :
    (c.set a secret).stamp? b = if b = a then some c.now else c.stamp? b := by
  by_cases hb : b = a <;> simp [SweptCache.set, Cache.set, stamp?, held?, hb, Cache.Entry.new]

@[simp] theorem stamp?_add (c : SweptCache) (a b : String) (secret : Secret) :
    (c.add a secret).2.stamp? b = if b = a then some ((c.stamp? a).getD c.now) else c.stamp? b := by
  unfold SweptCache.add Cache.add stamp? held?
  split <;> next h => by_cases hb : b = a <;> simp [hb, h, Cache.Entry.new]

@[simp] theorem stamp?_erase (c : SweptCache) (a b : String) :
    (c.erase a).stamp? b = if b = a then none else c.stamp? b := by
  by_cases hb : b = a <;> simp [SweptCache.erase, Cache.erase, stamp?, held?, hb]

/-- Starting a sweep changes nothing else. -/
theorem exists_startSweep (c : SweptCache) (policy : Sweep.Policy) (expiry : Nat) :
    ∃ sweeps, (c.startSweep policy expiry).2 = { c with sweeps } := by
  unfold SweptCache.startSweep
  split <;> exact ⟨_, rfl⟩

theorem stamp?_eq_none_iff : c.stamp? name = none ↔ c.cache.find? name = none := by
  simp [stamp?, held?, Cache.find?]

/-! ### One run -/

theorem le_max_of_awaits {s : Sweep} {deadline : Nat} (h : s.Awaits expiry deadline)
    (hwake : s.wake? = some wake) (now : Nat) : deadline ≤ max now wake := by
  rw [Sweep.wake?, h.phase] at hwake
  obtain rfl := Option.some.inj hwake
  exact Nat.le_trans (Time.le_roundUp deadline) (Nat.le_max_right _ _)

/-- A run of a sweep keeps the first one on time. -/
theorem Timely.runSweep (h : c.Timely expiry) (hfirst : c.first? = some (i, wake))
    (hclock : max c.now wake + expiry + Sweep.tolerance < Time.limit) :
    (c.runSweep (max c.now wake) i).Timely expiry := by
  obtain ⟨s, hs, hwake⟩ := first?_eq_some hfirst
  obtain ⟨age, deadline, hage, hawaits, hsoon, hentries⟩ := h.awaits
  have hrun : c.runSweep (max c.now wake) i = { c with
      now := max c.now wake
      sweeps := c.sweeps.set i (s.run (max c.now wake) c.dropped c.cache).1
      cache := (s.run (max c.now wake) c.dropped c.cache).2 } := by
    unfold SweptCache.runSweep
    rw [hs]
  rw [hrun]
  -- a run removes entries and lets time pass
  have hpast (name : String) (e : Cache.Entry)
      (he : (s.run (max c.now wake) c.dropped c.cache).2.entries.find? name = some e) :
      e.createdAt ≤ max c.now wake :=
    Nat.le_trans (h.past name e (Sweep.find?_of_run he)) (Nat.le_max_left _ _)
  refine ⟨h.kept, hpast, ?_⟩
  by_cases hi : i = 0
  case neg =>
    refine ⟨age, deadline, ?_, hawaits, ?_, fun name e he =>
      hentries name e (Sweep.find?_of_run he)⟩
    · simp only
      rw [List.getElem?_set_ne hi, hage]
    · simp only
      omega
  case pos =>
    subst hi
    obtain rfl := Option.some.inj (hage.symm.trans hs)
    have hdue := le_max_of_awaits hawaits hwake c.now
    obtain ⟨next, hnext, hle⟩ :=
      Sweep.exists_next? (s := age) (by rw [hawaits.period]; exact hclock) hdue
    rw [h.kept, Sweep.run_waiting hawaits.phase hnext]
    rw [hawaits.period] at hle
    refine ⟨{ age with phase := .waiting next }, next, ?_,
      ⟨hawaits.policy, hawaits.expiry, hawaits.period, rfl⟩, hle, fun name e he => ?_⟩
    · simp only
      rw [List.getElem?_set_self (List.getElem?_eq_some_iff.1 hage).1]
    · -- what is left has not reached the expiry
      simp only [held?, Sweep.find?_retain, Option.filter_eq_some_iff, hawaits.policy,
        hawaits.expiry, Sweep.Policy.age, decide_eq_true_eq] at he
      omega

/-- A run of a sweep by age leaves an entry that has not reached the expiry. -/
theorem ByAge.runSweep (h : c.ByAge expiry) (hfirst : c.first? = some (i, wake)) :
    (c.runSweep (max c.now wake) i).ByAge expiry ∧
      ∀ name e, c.held? name = some e → max c.now wake - e.createdAt < expiry →
        (c.runSweep (max c.now wake) i).held? name = some e := by
  obtain ⟨s, hs, -⟩ := first?_eq_some hfirst
  obtain ⟨hpolicy, hexpiry, hphase⟩ := h s (List.mem_of_getElem? hs)
  obtain ⟨hcache, hpolicy', hexpiry', hphase'⟩ :=
    Sweep.run_cases hphase (max c.now wake) c.dropped c.cache
  have hrun : c.runSweep (max c.now wake) i = { c with
      now := max c.now wake
      sweeps := c.sweeps.set i (s.run (max c.now wake) c.dropped c.cache).1
      cache := (s.run (max c.now wake) c.dropped c.cache).2 } := by
    unfold SweptCache.runSweep
    rw [hs]
  rw [hrun]
  refine ⟨fun other hother => ?_, fun name e hentry hyoung => ?_⟩
  · rcases List.mem_or_eq_of_mem_set hother with hother | rfl
    · exact h other hother
    · exact ⟨hpolicy'.trans hpolicy, hexpiry'.trans hexpiry, hphase'⟩
  · rcases hcache with hcache | hcache
    · simp only [held?, hcache]
      exact hentry
    · simp only [held?, hcache, Sweep.find?_retain, Option.filter_eq_some_iff, hpolicy,
        Sweep.Policy.age, decide_eq_true_eq]
      rw [hexpiry]
      exact ⟨hentry, hyoung⟩

/-! ### All runs that are due -/

/-- Where no sweep is the first to wake, none is to wake. -/
theorem wake?_of_firstFrom_eq_none {l : List Sweep} (h : firstFrom i l = none) :
    ∀ s ∈ l, s.wake? = none := by
  induction l generalizing i with
  | nil => simp
  | cons x l ih =>
    intro s hs
    unfold firstFrom at h
    split at h
    · next hx =>
      rcases List.mem_cons.1 hs with rfl | hs
      · exact hx
      · exact ih h s hs
    · cases h
    · split at h <;> cases h

/-- The sweep that is to run first is the first to wake. -/
theorem le_of_firstFrom {l : List Sweep} {j : Nat} (h : firstFrom i l = some (j, wake)) :
    ∀ s ∈ l, ∀ other, s.wake? = some other → wake ≤ other := by
  induction l generalizing i j wake with
  | nil => cases h
  | cons x l ih =>
    intro s hs other hother
    have hx : s = x ∨ s ∈ l := List.mem_cons.1 hs
    unfold firstFrom at h
    split at h
    · next hnone =>
      rcases hx with rfl | hs
      · cases hnone.symm.trans hother
      · exact ih h s hs other hother
    · next own hown hrest =>
      cases h
      rcases hx with rfl | hs
      · exact Nat.le_of_eq (Option.some.inj (hown.symm.trans hother))
      · cases (wake?_of_firstFrom_eq_none hrest s hs).symm.trans hother
    · next own k first hown hrest =>
      -- the own time is compared with the first of the others
      have hfirst (hs : s ∈ l) : first ≤ other := ih hrest s hs other hother
      have hself (heq : s = x) : own = other := by
        subst heq
        exact Option.some.inj (hown.symm.trans hother)
      split at h <;> cases h <;> rcases hx with heq | hs
      · exact Nat.le_of_eq (hself heq)
      · exact Nat.le_trans ‹_› (hfirst hs)
      · exact Nat.le_of_lt (hself heq ▸ Nat.not_le.1 ‹_›)
      · exact hfirst hs

/-- The runs that are due put nothing into the cache. -/
theorem held?_of_runDue (h : (c.runDue t).held? name = some e) : c.held? name = some e := by
  refine runDue_invariant (P := fun d => d.held? name = some e → c.held? name = some e) ?_
    (fun h => h) h
  intro d i wake hfirst _ hd h
  obtain ⟨s, hs, -⟩ := first?_eq_some hfirst
  unfold runSweep at h
  rw [hs] at h
  exact hd (Sweep.find?_of_run h)

/-- Without sweeps there is nothing to run. -/
theorem runDue_of_sweeps_eq_nil (h : c.sweeps = []) (t : Nat) : c.runDue t = c :=
  runDue_of_none (by rw [first?, h]; rfl)

/-- When the runs that are due up to a time have been made, no other one is. -/
theorem lt_wake_runDue (c : SweptCache) (t : Nat) :
    ∀ s ∈ (c.runDue t).sweeps, ∀ wake, s.wake? = some wake → t < wake := by
  induction c using runDue.induct (t := t) with
  | case1 c hnone =>
    rw [runDue_of_none hnone]
    intro s hs wake hwake
    cases (wake?_of_firstFrom_eq_none hnone s hs).symm.trans hwake
  | case2 c i wake hfirst hdue _ ih =>
    rw [runDue_of_due hfirst hdue]
    exact ih
  | case3 c i wake hfirst hlater =>
    rw [runDue_of_later hfirst hlater]
    intro s hs other hother
    exact Nat.lt_of_lt_of_le (Nat.not_le.1 hlater) (le_of_firstFrom hfirst s hs other hother)

theorem now_runSweep (c : SweptCache) (now i : Nat) :
    (c.runSweep now i).now = now ∨ (c.runSweep now i).now = c.now := by
  unfold runSweep
  split
  · exact .inr rfl
  · exact .inl rfl

/-- The runs that are due up to a time take the clock no further. -/
theorem now_runDue (hle : c.now ≤ t) : c.now ≤ (c.runDue t).now ∧ (c.runDue t).now ≤ t := by
  refine runDue_invariant (P := fun d => c.now ≤ d.now ∧ d.now ≤ t) (fun d i wake _ hdue hd => ?_)
    ⟨Nat.le_refl _, hle⟩
  rcases now_runSweep d (max d.now wake) i with h | h <;> rw [h]
  · exact ⟨Nat.le_trans hd.1 (Nat.le_max_left _ _), Nat.max_le.2 ⟨hd.2, hdue⟩⟩
  · exact hd

theorem now_advance (c : SweptCache) (duration : Nat) :
    (c.advance duration).now = c.now + duration :=
  Nat.max_eq_right (now_runDue (Nat.le_add_right _ _)).2

theorem now_jump (c : SweptCache) (duration : Nat) : (c.jump duration).now = c.now + duration := by
  have h := now_runDue (c := { c with now := c.now + duration }) (Nat.le_refl _)
  exact Nat.le_antisymm h.2 h.1

theorem stamp?_of_runDue {stamp : Nat} (h : (c.runDue t).stamp? name = some stamp) :
    c.stamp? name = some stamp := by
  obtain ⟨e, he, hcreated⟩ := Option.map_eq_some_iff.1 h
  exact Option.map_eq_some_iff.2 ⟨e, held?_of_runDue he, hcreated⟩

theorem stamp?_of_advance {duration stamp : Nat}
    (h : (c.advance duration).stamp? name = some stamp) : c.stamp? name = some stamp :=
  stamp?_of_runDue (c := c) (t := c.now + duration) h

theorem stamp?_of_jump {duration stamp : Nat} (h : (c.jump duration).stamp? name = some stamp) :
    c.stamp? name = some stamp :=
  stamp?_of_runDue (c := { c with now := c.now + duration }) h

/-- The runs that are due keep the first sweep on time. -/
theorem Timely.runDue (h : c.Timely expiry) (hle : c.now ≤ t)
    (hclock : t + expiry + Sweep.tolerance < Time.limit) : (c.runDue t).Timely expiry := by
  refine (runDue_invariant (P := fun d => d.Timely expiry ∧ d.now ≤ t) ?_ ⟨h, hle⟩).1
  rintro d i wake hfirst hdue ⟨hd, hnow⟩
  have hmax : max d.now wake ≤ t := Nat.max_le.2 ⟨hnow, hdue⟩
  refine ⟨hd.runSweep hfirst (Nat.lt_of_le_of_lt (by omega) hclock), ?_⟩
  rcases now_runSweep d (max d.now wake) i with h | h <;> rw [h]
  · exact hmax
  · exact hnow

/-- Time that passes keeps a sweep on time as long as no run of it is due. -/
theorem Timely.later (h : c.Timely expiry) (hle : c.now ≤ t) :
    ({ c with now := t } : SweptCache).Timely expiry := by
  obtain ⟨s, deadline, hs, hawaits, hsoon, hentries⟩ := h.awaits
  exact ⟨h.kept, fun name e he => Nat.le_trans (h.past name e he) hle,
    s, deadline, hs, hawaits, Nat.le_trans hsoon (Nat.add_le_add_right hle _), hentries⟩

theorem Timely.advance (h : c.Timely expiry) {duration : Nat}
    (hclock : c.now + duration + expiry + Sweep.tolerance < Time.limit) :
    (c.advance duration).Timely expiry ∧ (c.advance duration).Quiet := by
  have hle : c.now ≤ c.now + duration := Nat.le_add_right _ _
  refine ⟨(h.runDue hle hclock).later (Nat.le_max_left _ _), fun s hs wake hwake => ?_⟩
  rw [now_advance]
  exact lt_wake_runDue c _ s hs wake hwake

theorem Timely.jump (h : c.Timely expiry) {duration : Nat}
    (hclock : c.now + duration + expiry + Sweep.tolerance < Time.limit) :
    (c.jump duration).Timely expiry ∧ (c.jump duration).Quiet := by
  have hlater := h.later (Nat.le_add_right c.now duration)
  refine ⟨hlater.runDue (Nat.le_refl _) hclock, fun s hs wake hwake => ?_⟩
  rw [now_jump]
  exact lt_wake_runDue _ _ s hs wake hwake

/-- **No entry is found that is twice as old as the expiry**, but for a part of a millisecond. -/
theorem Timely.lt_of_held? (h : c.Timely expiry) (hquiet : c.Quiet)
    (hentry : c.held? name = some e) :
    c.now < e.createdAt + 2 * expiry + c.now % Time.millisecond := by
  obtain ⟨s, deadline, hs, hawaits, -, hentries⟩ := h.awaits
  have hwake : s.wake? = some (Time.roundUp deadline) := by rw [Sweep.wake?, hawaits.phase]
  have hlate := Time.lt_of_lt_roundUp (hquiet s (List.mem_of_getElem? hs) _ hwake)
  have hage := hentries name e hentry
  omega

/-- What is done with the entries while the clock stands still keeps a sweep on time, if entries
that are put in have the stamp of the moment. -/
theorem Timely.of_stamps (h : c.Timely expiry) (hexpiry : 0 < expiry) (hnow : d.now = c.now)
    (hkept : d.dropped = c.dropped) (hsweeps : d.sweeps = c.sweeps)
    (hstamps : ∀ name stamp, d.stamp? name = some stamp →
      stamp = c.now ∨ c.stamp? name = some stamp) : d.Timely expiry := by
  obtain ⟨s, deadline, hs, hawaits, hsoon, hentries⟩ := h.awaits
  have hstamp (name : String) (e : Cache.Entry) (he : d.held? name = some e) :
      e.createdAt = c.now ∨ ∃ f, c.held? name = some f ∧ f.createdAt = e.createdAt := by
    have hold := hstamps name e.createdAt (by rw [stamp?, he]; rfl)
    rwa [stamp?, Option.map_eq_some_iff] at hold
  refine ⟨hkept.trans h.kept, fun name e he => ?_, s, deadline, hsweeps ▸ hs, hawaits,
    hnow ▸ hsoon, fun name e he => ?_⟩
  · rw [hnow]
    rcases hstamp name e he with heq | ⟨f, hf, heq⟩
    · exact Nat.le_of_eq heq
    · exact heq ▸ h.past name f hf
  · rcases hstamp name e he with heq | ⟨f, hf, heq⟩
    · omega
    · exact heq ▸ hentries name f hf

/-- Starting a sweep adds one that is not due, at most. -/
theorem Quiet.startSweep (h : c.Quiet) (policy : Sweep.Policy) (expiry : Nat) :
    (c.startSweep policy expiry).2.Quiet := by
  intro s hs wake hwake
  unfold SweptCache.startSweep at hs ⊢
  split at hs
  · exact h s hs wake hwake
  · next started hstart =>
    rcases List.mem_append.1 hs with hs | hs
    · exact h s hs wake hwake
    · obtain rfl := List.mem_singleton.1 hs
      exact Sweep.lt_wake_of_start? hstart hwake

/-- A sweep that is started later is not the first. -/
theorem Timely.startSweep (h : c.Timely expiry) (policy : Sweep.Policy) (other : Nat) :
    (c.startSweep policy other).2.Timely expiry := by
  obtain ⟨s, deadline, hs, hawaits, hsoon, hentries⟩ := h.awaits
  unfold SweptCache.startSweep
  split
  · exact h
  · exact ⟨h.kept, h.past, s, deadline,
      List.getElem?_append_left (List.getElem?_eq_some_iff.1 hs).1 ▸ hs, hawaits, hsoon, hentries⟩

/-- A sweep by age that is started on an empty cache is on time. -/
theorem timely_startSweep (hsweeps : c.sweeps = []) (hempty : ∀ name, c.held? name = none)
    (hkept : c.dropped = false) (hexpiry : 0 < expiry)
    (hclock : c.now + expiry + Sweep.tolerance < Time.limit) :
    (c.startSweep .created expiry).2.Timely expiry := by
  have hnext : Time.after? c.now expiry = some (c.now + expiry) :=
    Time.after?_of_lt (Nat.lt_of_le_of_lt (by omega) hclock)
  have hnone (name : String) (e : Cache.Entry) (P : Prop) (he : c.held? name = some e) : P := by
    rw [hempty name] at he
    cases he
  simp only [SweptCache.startSweep, Sweep.start?, hexpiry, dif_pos, hsweeps, List.nil_append]
  exact ⟨hkept, fun name e he => hnone name e _ he, _, c.now + expiry, rfl,
    ⟨rfl, rfl, rfl, by simp only [Sweep.Policy.period, hnext, Sweep.Phase.await]⟩, Nat.le_refl _,
    fun name e he => hnone name e _ he⟩

/-! ### Entries that are young -/

/-- A sweep by age that is started is another one. -/
theorem ByAge.startSweep (h : c.ByAge expiry) : (c.startSweep .created expiry).2.ByAge expiry := by
  unfold SweptCache.startSweep Sweep.start?
  split
  · exact h
  · next started hstart =>
    split at hstart <;> cases hstart
    intro s hs
    rcases List.mem_append.1 hs with hs | hs
    · exact h s hs
    · obtain rfl := List.mem_singleton.1 hs
      refine ⟨rfl, rfl, fun clock deadline => ?_⟩
      cases Time.after? c.now (Sweep.Policy.created.period expiry) <;> simp [Sweep.Phase.await]

/-- An expiry of zero starts no sweep. -/
theorem startSweep_zero (c : SweptCache) (policy : Sweep.Policy) :
    (c.startSweep policy 0).2 = c := rfl

/-- Where all sweeps are by age, the runs that are due leave an entry that has not reached the
expiry. -/
theorem ByAge.runDue (h : c.ByAge expiry) (hle : c.now ≤ t) :
    (c.runDue t).ByAge expiry ∧
      ∀ name e, c.held? name = some e → t - e.createdAt < expiry →
        (c.runDue t).held? name = some e := by
  have hall := runDue_invariant (t := t) (P := fun d => d.ByAge expiry ∧ d.now ≤ t ∧
    ∀ name e, c.held? name = some e → t - e.createdAt < expiry → d.held? name = some e) (c := c) ?_
    ⟨h, hle, fun _ _ hentry _ => hentry⟩
  · exact ⟨hall.1, hall.2.2⟩
  rintro d i wake hfirst hdue ⟨hd, hnow, hkept⟩
  have hmax : max d.now wake ≤ t := Nat.max_le.2 ⟨hnow, hdue⟩
  obtain ⟨hages, hstays⟩ := hd.runSweep hfirst
  refine ⟨hages, ?_, fun name e hentry hyoung =>
    hstays name e (hkept name e hentry hyoung) (by omega)⟩
  rcases now_runSweep d (max d.now wake) i with h | h <;> rw [h]
  · exact hmax
  · exact hnow

end SweptCache

end Keyring
