import Keyring.Proofs.Cache.Course

/-!
# Sweeps are punctual

A sweep removes no entry that had not reached its expiry when the sweep read the clock, and from its
first run on leaves no entry that is older than the expiry and one period together. The second part
rests on a bound that links the deadline to the entries: whenever a sweep waits, its deadline is
less than the expiry and a period after the stamp of each entry. A run removes what would break the
bound for the next deadline, and what is put in or used later has a stamp of its own time, from
which the deadline is at most a period away.

Timers fire at whole milliseconds, so the clock may be ahead of a deadline by a part of one. Where
time passes in whole milliseconds it never is.

- `Sweep.OnTime`, `SweptCache.Punctual`: the bound for a waiting sweep and for one in a run, and a
  cache with a sweep that keeps it;
- `SweptCache.Punctual.happen`, `SweptCache.Punctual.follow`: events and courses keep it;
- `SweptCache.Bounds`, `SweptCache.bounds_iff`: how old what is left may be;
- `SweptCache.Punctual.bounds`: it is not older;
- `SweptCache.exists_old_of_removed`: what a run removes was too old when the run began;
- `SweptCache.evicts_neither_early_nor_late`: both parts for all courses of a new cache.
-/

namespace Keyring

namespace Sweep

variable {s : Sweep} {c d : SweptCache} {first : Option Nat} {clock deadline wake i : Nat}

/-- A sweep that waits has a deadline at most one period away, and less than an expiry and a period
after the stamp of any entry, unless it waits for a given first deadline. In a run the next deadline
is at most one period after the clock that was read. -/
structure OnTime (s : Sweep) (c : SweptCache) (first : Option Nat) : Prop where
  period : s.period = s.policy.period s.expiry
  phase : (∃ deadline, s.phase = .waiting deadline ∧ deadline ≤ c.now + s.period ∧
      (some deadline = first ∨ ∀ name stamp, c.stampBy? s.policy name = some stamp →
        deadline < stamp + s.expiry + s.period)) ∨
    ∃ clock deadline, s.phase = .clearing clock deadline ∧ clock ≤ c.now ∧
      deadline ≤ clock + s.period

/-- What stamps entries with a later time or not at all keeps a sweep on time. -/
theorem OnTime.of_stamps (h : s.OnTime c first) (hexpiry : 0 < s.expiry) (hnow : c.now ≤ d.now)
    (hstamps : ∀ name stamp, d.stampBy? s.policy name = some stamp →
      c.now ≤ stamp ∨ c.stampBy? s.policy name = some stamp) : s.OnTime d first := by
  refine ⟨h.period, ?_⟩
  rcases h.phase with ⟨deadline, hphase, hsoon, hspares⟩ | ⟨clock, deadline, hphase, hclock, hsoon⟩
  · refine .inl ⟨deadline, hphase, Nat.le_trans hsoon (Nat.add_le_add_right hnow _), ?_⟩
    rcases hspares with hfirst | hspares
    · exact .inl hfirst
    · refine .inr fun name stamp hstamp => ?_
      rcases hstamps name stamp hstamp with hnew | hold
      · omega
      · exact hspares name stamp hold
  · exact .inr ⟨clock, deadline, hphase, Nat.le_trans hclock hnow, hsoon⟩

theorem expiry_begin (s : Sweep) (now : Nat) (gone : Bool) :
    (s.begin now gone).expiry = s.expiry := by
  cases hphase : s.phase <;> simp only [Sweep.begin, hphase]

theorem expiry_finish (s : Sweep) (c : Cache) : (s.finish c).1.expiry = s.expiry := by
  cases hphase : s.phase <;> simp only [Sweep.finish, hphase]

/-- A sweep that reads the clock when it is due stays on time. -/
theorem OnTime.begin (h : s.OnTime c first) (hwake : s.wake? = some wake) (hdue : wake ≤ c.now)
    (hlimit : c.now + s.period + tolerance < Time.limit) :
    ∃ next, s.begin c.now false = { s with phase := .clearing c.now next } ∧
      (s.begin c.now false).OnTime c first := by
  obtain ⟨deadline, hphase, rfl⟩ := exists_waiting hwake
  have hpassed : deadline ≤ c.now := Nat.le_trans (Time.le_roundUp deadline) hdue
  obtain ⟨next, hnext, hsoon⟩ := exists_next? (s := s) hlimit hpassed
  have hbegin : s.begin c.now false = { s with phase := .clearing c.now next } := by
    simp only [Sweep.begin, hphase]
    rw [hnext]
    rfl
  refine ⟨next, hbegin, ?_⟩
  rw [hbegin]
  exact ⟨h.period, .inr ⟨c.now, next, rfl, Nat.le_refl _, hsoon⟩⟩

/-- A run removes what the next deadline is too late for. -/
theorem OnTime.finish (h : s.OnTime c first) (hphase : s.phase = .clearing clock deadline) :
    (s.finish c.cache).1.OnTime { c with cache := (s.finish c.cache).2 } first := by
  rcases h.phase with ⟨other, hwaiting, -⟩ | ⟨clock, deadline, hclearing, hclock, hsoon⟩
  · cases hphase.symm.trans hwaiting
  have hfinish : s.finish c.cache = ({ s with phase := .waiting deadline },
      c.cache.retain fun e => s.policy.age clock e < s.expiry) := by
    rw [Sweep.finish, hclearing]
  rw [hfinish]
  refine ⟨h.period, .inl ⟨deadline, rfl, ?_, .inr fun name stamp hstamp => ?_⟩⟩
  · exact Nat.le_trans hsoon (Nat.add_le_add_right hclock _)
  · obtain ⟨e, he, hstamp⟩ := SweptCache.exists_held_of_stampBy? hstamp
    simp only [SweptCache.held?, find?_retain, Option.filter_eq_some_iff, decide_eq_true_eq] at he
    have hyoung := he.2
    rw [Policy.age_eq, hstamp] at hyoung
    show deadline < stamp + s.expiry + s.period
    omega

/-- A sweep that has just been started is on time for its first deadline. -/
theorem onTime_of_start? {policy : Policy} {expiry : Nat}
    (hstart : start? policy c.now expiry = some s)
    (hlimit : c.now + policy.period expiry + tolerance < Time.limit) :
    s.policy = policy ∧ s.expiry = expiry ∧
      s.OnTime c (some (c.now + policy.period expiry)) ∧
      ((∀ name, c.held? name = none) → s.OnTime c none) := by
  have hnext : Time.after? c.now (policy.period expiry) = some (c.now + policy.period expiry) :=
    Time.after?_of_lt (Nat.lt_of_le_of_lt (by omega) hlimit)
  unfold start? at hstart
  split at hstart <;> cases hstart
  have hphase : Phase.await (Time.after? c.now (policy.period expiry)) =
      .waiting (c.now + policy.period expiry) := by
    rw [hnext]
    rfl
  refine ⟨rfl, rfl, ⟨rfl, .inl ⟨_, hphase, Nat.le_refl _, .inl rfl⟩⟩, ?_⟩
  intro hempty
  refine ⟨rfl, .inl ⟨_, hphase, Nat.le_refl _, .inr fun name stamp hstamp => ?_⟩⟩
  rw [SweptCache.stampBy?, hempty name] at hstamp
  cases hstamp

end Sweep

namespace SweptCache

open Event

variable {c : SweptCache} {event : Event} {events : List Event} {policy : Sweep.Policy}
  {i expiry : Nat} {first : Option Nat} {name : String} {e : Cache.Entry}

/-- A cache with a sweep that is on time, by its number. -/
structure Punctual (c : SweptCache) (i : Nat) (policy : Sweep.Policy) (expiry : Nat)
    (first : Option Nat) : Prop where
  kept : c.dropped = false
  sweep : ∃ s, c.sweeps[i]? = some s ∧ s.policy = policy ∧ s.expiry = expiry ∧ s.OnTime c first

/-- What is done with the entries while the clock stands still keeps a sweep on time, if entries
that are put in or used have the stamp of the moment. -/
theorem Punctual.of_stamps {d : SweptCache} (h : c.Punctual i policy expiry first)
    (hexpiry : 0 < expiry) (hnow : d.now = c.now) (hkept : d.dropped = c.dropped)
    (hsweeps : d.sweeps = c.sweeps) (hstamps : ∀ name stamp, d.stampBy? policy name = some stamp →
      stamp = c.now ∨ c.stampBy? policy name = some stamp) :
    d.Punctual i policy expiry first := by
  obtain ⟨s, hs, rfl, rfl, htime⟩ := h.sweep
  refine ⟨hkept.trans h.kept, s, hsweeps ▸ hs, rfl, rfl,
    htime.of_stamps hexpiry (Nat.le_of_eq hnow.symm) fun name stamp hstamp => ?_⟩
  exact (hstamps name stamp hstamp).imp_left fun hnew => Nat.le_of_eq hnew.symm

theorem dropped_happen (c : SweptCache) {event : Event} (hsmall : event.Small) :
    (c.happen event).dropped = c.dropped := by
  cases event with
  | start policy expiry =>
    obtain ⟨sweeps, hsweeps⟩ := c.exists_startSweep policy expiry
    show (c.startSweep policy expiry).2.dropped = c.dropped
    rw [hsweeps]
  | begin i =>
    show (c.beginSweep i).dropped = c.dropped
    unfold beginSweep
    split <;> rfl
  | finish i =>
    show (c.finishSweep i).dropped = c.dropped
    unfold finishSweep
    split <;> rfl
  | advance | jump => exact absurd hsmall id
  | get | set | add | erase | delay => rfl

/-- **A small event keeps a sweep on time**, as long as the clock can tell its next deadline. -/
theorem Punctual.happen (h : c.Punctual i policy expiry first) (hexpiry : 0 < expiry)
    (hsmall : event.Small) (hallows : c.Allows event)
    (hlimit : c.now + policy.period expiry + Sweep.tolerance < Time.limit) :
    (c.happen event).Punctual i policy expiry first := by
  obtain ⟨s, hs, rfl, rfl, htime⟩ := h.sweep
  have hlength : i < c.sweeps.length := (List.getElem?_eq_some_iff.1 hs).1
  refine ⟨(dropped_happen c hsmall).trans h.kept, ?_⟩
  by_cases hown : event.IsStepOf i
  case neg =>
    refine ⟨s, sweeps_happen hs hown (.inr hsmall), rfl, rfl, htime.of_stamps hexpiry ?_ ?_⟩
    · rw [now_happen]
      exact Nat.le_add_right _ _
    · intro name stamp hstamp
      exact (stampBy?_happen c event hstamp).imp_left fun hnew => Nat.le_of_eq hnew.symm
  case pos =>
    cases event with
    | begin j =>
      obtain rfl : j = i := hown
      obtain ⟨other, wake, hother, hwake, hdue⟩ := hallows
      obtain rfl := Option.some.inj (hs.symm.trans hother)
      obtain ⟨next, hbegin, hon⟩ := htime.begin hwake hdue (by rw [htime.period]; exact hlimit)
      have hstep : c.happen (.begin j) =
          { c with sweeps := c.sweeps.set j (s.begin c.now false) } := by
        show c.beginSweep j = _
        rw [beginSweep, hs, h.kept]
      refine ⟨s.begin c.now false, ?_, by rw [hbegin], by rw [hbegin], ?_⟩
      · rw [hstep]
        exact List.getElem?_set_self hlength
      · -- the entries and the clock are the same as before
        rw [hstep]
        exact ⟨hon.period, hon.phase⟩
    | finish j =>
      obtain rfl : j = i := hown
      have hstep : c.happen (.finish j) = { c with
          sweeps := c.sweeps.set j (s.finish c.cache).1, cache := (s.finish c.cache).2 } := by
        show c.finishSweep j = _
        rw [finishSweep, hs]
      rw [hstep]
      refine ⟨(s.finish c.cache).1, List.getElem?_set_self hlength, ?_⟩
      rcases htime.phase with ⟨deadline, hphase, -⟩ | ⟨clock, deadline, hphase, -⟩
      · -- a sweep that waits has nothing to finish
        have hfinish : s.finish c.cache = (s, c.cache) := by rw [Sweep.finish, hphase]
        rw [hfinish]
        exact ⟨rfl, rfl, htime.period, htime.phase⟩
      · have hon := htime.finish hphase
        have hfinish : (s.finish c.cache).1 = { s with phase := .waiting deadline } := by
          rw [Sweep.finish, hphase]
        refine ⟨by rw [hfinish], by rw [hfinish], hon.period, hon.phase⟩
    | get | set | add | erase | start | advance | jump | delay => exact absurd hown id

/-- **A course keeps a sweep on time.** -/
theorem Punctual.follow (h : c.Punctual i policy expiry first) (hexpiry : 0 < expiry)
    (hlegal : c.Legal events)
    (hlimit : (c.follow events).now + policy.period expiry + Sweep.tolerance < Time.limit) :
    (c.follow events).Punctual i policy expiry first := by
  obtain ⟨steps, hsmall, hsteps, hfollow⟩ := exists_small hlegal
  rw [← hfollow] at hlimit ⊢
  clear hlegal hfollow
  induction steps generalizing c with
  | nil => exact h
  | cons step steps ih =>
    -- the clock does not go back, so the condition on it holds at each event
    have hpast : c.now ≤ (c.follow (step :: steps)).now := now_le_follow c (step :: steps)
    refine ih (h.happen hexpiry (hsmall step List.mem_cons_self) hsteps.1
      (Nat.lt_of_le_of_lt (by omega) hlimit)) hlimit ?_ hsteps.2
    exact fun other hother => hsmall other (List.mem_cons_of_mem _ hother)

/-- No entry is older by a policy than an expiry and one period together, up to a slack; for the
policy that counts use, and half of the expiry at least the shortest period, that is one and a half
times the expiry. -/
def Bounds (c : SweptCache) (policy : Sweep.Policy) (expiry slack : Nat) : Prop :=
  ∀ name e, c.held? name = some e →
    policy.age c.now e < expiry + policy.period expiry + slack ∧
      (policy = .unused → 2 * Sweep.minPeriod ≤ expiry →
        2 * policy.age c.now e < 3 * expiry + 2 * slack)

/-- Entries were put in less than two expiries ago by the one policy, and were last used less than
an expiry and half of it, or the shortest period, ago by the other. -/
theorem bounds_iff {slack : Nat} : c.Bounds policy expiry slack ↔
    ∀ name e, c.held? name = some e → match policy with
    | .created => c.now - e.createdAt < 2 * expiry + slack
    | .unused =>
      c.now - e.lastUsed < expiry + max (expiry / 2) Time.millisecond + slack ∧
        (2 * Time.millisecond ≤ expiry → 2 * (c.now - e.lastUsed) < 3 * expiry + 2 * slack) := by
  cases policy with
  | created => simp [Bounds, Sweep.Policy.age, Sweep.Policy.period, Nat.two_mul]
  | unused => simp [Bounds, Sweep.Policy.age, Sweep.Policy.period, Sweep.minPeriod]

/-- **What a sweep that is on time leaves is not too old**, once its first run is due. -/
theorem Punctual.bounds (h : c.Punctual i policy expiry first) (hexpiry : 0 < expiry)
    (hsettled : c.Settled)
    (hfirst : ∀ deadline, first = some deadline → Time.roundUp deadline ≤ c.now) :
    c.Bounds policy expiry (c.now % Time.millisecond) := by
  intro name e he
  obtain ⟨s, hs, rfl, rfl, htime⟩ := h.sweep
  rcases htime.phase with ⟨deadline, hphase, -, hspares⟩ | ⟨clock, deadline, hphase, -⟩
  case inr => exact absurd hphase (hsettled.rest s (List.mem_of_getElem? hs) clock deadline)
  have hwake : s.wake? = some (Time.roundUp deadline) := by rw [Sweep.wake?, hphase]
  have hearly : c.now < Time.roundUp deadline :=
    hsettled.quiet s (List.mem_of_getElem? hs) _ hwake
  have hlate := Time.lt_of_lt_roundUp hearly
  rcases hspares with hstart | hspares
  · -- the first run would be due
    exact absurd (hfirst deadline hstart.symm) (Nat.not_le.2 hearly)
  · have hage := hspares name (s.policy.stamp e) (by rw [stampBy?, he]; rfl)
    rw [htime.period] at hage
    rw [Sweep.Policy.age_eq]
    refine ⟨by omega, fun hpolicy hlong => ?_⟩
    have hhalf : s.policy.period s.expiry = s.expiry / 2 := by
      rw [hpolicy]
      exact Nat.max_eq_left (by omega)
    omega

/-! ### What a run removes -/

/-- The sweeps that are started have an expiry. -/
theorem expiry_pos_of_follow (hlegal : c.Legal events) (hc : ∀ s ∈ c.sweeps, 0 < s.expiry) :
    ∀ s ∈ (c.follow events).sweeps, 0 < s.expiry := by
  obtain ⟨steps, hsmall, hlegal, hfollow⟩ := exists_small hlegal
  rw [← hfollow]
  refine follow_invariant (P := fun c => ∀ s ∈ c.sweeps, 0 < s.expiry) ?_ hsmall hlegal hc
  intro c event hsmall _ hc s hs
  cases event with
  | start policy expiry =>
    change s ∈ (c.startSweep policy expiry).2.sweeps at hs
    unfold startSweep at hs
    split at hs
    · exact hc s hs
    · next started hstart =>
      rcases List.mem_append.1 hs with hs | hs
      · exact hc s hs
      · obtain rfl := List.mem_singleton.1 hs
        unfold Sweep.start? at hstart
        split at hstart
        · next hpos =>
          cases hstart
          exact hpos
        · cases hstart
  | begin i =>
    change s ∈ (c.beginSweep i).sweeps at hs
    unfold beginSweep at hs
    split at hs
    · exact hc s hs
    · next other hother =>
      rcases List.mem_or_eq_of_mem_set hs with hs | rfl
      · exact hc s hs
      · rw [Sweep.expiry_begin]
        exact hc other (List.mem_of_getElem? hother)
  | finish i =>
    change s ∈ (c.finishSweep i).sweeps at hs
    unfold finishSweep at hs
    split at hs
    · exact hc s hs
    · next other hother =>
      rcases List.mem_or_eq_of_mem_set hs with hs | rfl
      · exact hc s hs
      · rw [Sweep.expiry_finish]
        exact hc other (List.mem_of_getElem? hother)
  | advance | jump => exact absurd hsmall id
  | get | set | add | erase | delay => exact hc s hs

/-- A stamp that is older than a course was there before it. -/
theorem stampBy?_of_follow {stamp : Nat} (hold : stamp < c.now)
    (h : (c.follow events).stampBy? policy name = some stamp) :
    c.stampBy? policy name = some stamp := by
  induction events generalizing c with
  | nil => exact h
  | cons event events ih =>
    have hnow : c.now ≤ (c.happen event).now := by
      rw [now_happen]
      exact Nat.le_add_right _ _
    rcases stampBy?_happen c event (ih (Nat.lt_of_lt_of_le hold hnow) h) with hnew | hbefore
    · omega
    · exact hbefore

/-- A sweep that has begun a run is left alone until it finishes it. -/
theorem sweeps_follow {s : Sweep} (hs : c.sweeps[i]? = some s) (hwake : s.wake? = none)
    (hothers : ∀ event ∈ events, ¬event.IsStepOf i) : (c.follow events).sweeps[i]? = some s := by
  induction events generalizing c with
  | nil => exact hs
  | cons event events ih =>
    have hevent := hothers event List.mem_cons_self
    refine ih (sweeps_happen hs hevent (.inl hwake)) ?_
    exact fun other hother => hothers other (List.mem_cons_of_mem _ hother)

/-- A sweep that has begun a run is not to wake. -/
theorem wake?_begin {s : Sweep} {wake : Nat} (hwake : s.wake? = some wake) (now : Nat)
    (gone : Bool) : (s.begin now gone).wake? = none := by
  obtain ⟨deadline, hphase, -⟩ := Sweep.exists_waiting hwake
  simp only [Sweep.begin, hphase]
  cases s.next? now deadline <;> cases gone <;> rfl

/-- **What a run removes had reached the expiry when the run began**, whatever came in between. -/
theorem exists_old_of_removed (hallows : c.Allows (.begin i))
    (hexpiry : ∀ s ∈ c.sweeps, 0 < s.expiry) (hothers : ∀ event ∈ events, ¬event.IsStepOf i)
    (hbefore : (c.follow (.begin i :: events)).held? name = some e)
    (hafter : ((c.follow (.begin i :: events)).finishSweep i).held? name = none) :
    ∃ s f, c.sweeps[i]? = some s ∧ c.held? name = some f ∧
      s.policy.stamp f = s.policy.stamp e ∧ s.expiry ≤ s.policy.age c.now f := by
  obtain ⟨s, wake, hs, hwake, -⟩ := hallows
  have hstep : c.happen (.begin i) =
      { c with sweeps := c.sweeps.set i (s.begin c.now c.dropped) } := by
    show c.beginSweep i = _
    rw [beginSweep, hs]
  have hbegun : (c.follow (.begin i :: events)).sweeps[i]? = some (s.begin c.now c.dropped) := by
    refine sweeps_follow (c := c.happen (.begin i)) ?_ (wake?_begin hwake _ _) hothers
    rw [hstep]
    exact List.getElem?_set_self (List.getElem?_eq_some_iff.1 hs).1
  obtain ⟨deadline, hphase, -⟩ := Sweep.exists_waiting hwake
  -- the two steps are a run at the time at which the clock was read
  have hremoves : ¬s.policy.age c.now e < s.expiry := by
    intro hyoung
    have hrun := (Sweep.run_cases (s := s) (fun clock next h => by cases hphase.symm.trans h) c.now
      c.dropped (c.follow (.begin i :: events)).cache).1
    have hkeeps : (s.run c.now c.dropped (c.follow (.begin i :: events)).cache).2.entries.find?
        name = some e := by
      rcases hrun with hrun | hrun <;> rw [hrun]
      · exact hbefore
      · rw [Sweep.find?_retain]
        exact Option.filter_eq_some_iff.2 ⟨hbefore, decide_eq_true hyoung⟩
    rw [finishSweep, hbegun] at hafter
    exact absurd (hkeeps.symm.trans hafter) (Option.some_ne_none e)
  have hpos := hexpiry s (List.mem_of_getElem? hs)
  rw [Sweep.Policy.age_eq] at hremoves
  have hstamp : c.stampBy? s.policy name = some (s.policy.stamp e) := by
    have hlast : (c.follow (.begin i :: events)).stampBy? s.policy name =
        some (s.policy.stamp e) := by
      rw [stampBy?, hbefore]
      rfl
    exact stampBy?_of_follow (by omega) hlast
  obtain ⟨f, hf, hsame⟩ := exists_held_of_stampBy? hstamp
  refine ⟨s, f, hs, hf, hsame, ?_⟩
  rw [Sweep.Policy.age_eq, hsame]
  omega

/-- The runs that are due remove only what has reached the expiry of a sweep when they are over. -/
theorem exists_old_of_runDue {t : Nat} (hnow : c.now ≤ t) (hbefore : c.held? name = some e)
    (hafter : (c.runDue t).held? name = none) :
    ∃ s ∈ c.sweeps, s.expiry ≤ s.policy.age t e := by
  have hall := runDue_invariant (c := c) (t := t) (P := fun d => d.now ≤ t ∧
    (∀ s ∈ d.sweeps, ∃ r ∈ c.sweeps, s.policy = r.policy ∧ s.expiry = r.expiry) ∧
    (d.held? name = some e ∨ ∃ s ∈ c.sweeps, s.expiry ≤ s.policy.age t e)) ?_
    ⟨hnow, fun s hs => ⟨s, hs, rfl, rfl⟩, .inl hbefore⟩
  · refine hall.2.2.resolve_left fun hheld => ?_
    cases hheld.symm.trans hafter
  rintro d i wake hfirst hdue ⟨hd, hsweeps, hheld⟩
  obtain ⟨s, hs, hwake⟩ := first?_eq_some hfirst
  obtain ⟨deadline, hphase, -⟩ := Sweep.exists_waiting hwake
  obtain ⟨hcache, hpolicy, hexpiry, -⟩ := Sweep.run_cases (s := s)
    (fun clock next h => by cases hphase.symm.trans h) (max d.now wake) d.dropped d.cache
  obtain ⟨r, hr, hsame, hlong⟩ := hsweeps s (List.mem_of_getElem? hs)
  have hmax : max d.now wake ≤ t := Nat.max_le.2 ⟨hd, hdue⟩
  unfold runSweep
  rw [hs]
  refine ⟨hmax, fun other hother => ?_, ?_⟩
  · rcases List.mem_or_eq_of_mem_set hother with hother | rfl
    · exact hsweeps other hother
    · exact ⟨r, hr, hpolicy.trans hsame, hexpiry.trans hlong⟩
  · rcases hheld with hheld | hold
    case inr => exact .inr hold
    rcases hcache with hcache | hcache
    · exact .inl (by simpa only [held?, hcache] using hheld)
    by_cases hyoung : s.policy.age (max d.now wake) e < s.expiry
    · refine .inl ?_
      simp only [held?, hcache, Sweep.find?_retain]
      exact Option.filter_eq_some_iff.2 ⟨hheld, decide_eq_true hyoung⟩
    · refine .inr ⟨r, hr, ?_⟩
      rw [Sweep.Policy.age_eq, hlong, hsame] at hyoung
      rw [Sweep.Policy.age_eq]
      omega

/-- **An entry only goes when its name is removed, or when a sweep finds it too old.** -/
theorem cases_of_removed (hbefore : c.held? name = some e)
    (hafter : (c.happen event).held? name = none) :
    event = .erase name ∨ (∃ i, event = .finish i) ∨
      ∃ s ∈ c.sweeps, s.expiry ≤ s.policy.age (c.happen event).now e := by
  -- what is put in or looked up does not take another entry away
  have hinsert (other : String) (entry : Cache.Entry)
      (h : (c.cache.entries.insert other entry).find? name = none) : False := by
    rw [FiniteMap.find?_insert] at h
    split at h
    · cases h
    · cases hbefore.symm.trans h
  have hsame (h : c.held? name = none) : False := by cases hbefore.symm.trans h
  cases event with
  | get other =>
    have hget : (c.cache.get c.now other).2.entries.find? name = none := hafter
    unfold Cache.get at hget
    split at hget
    · exact (hsame hget).elim
    · exact (hinsert _ _ hget).elim
  | set other secret => exact (hinsert _ _ hafter).elim
  | add other secret =>
    have hadd : (c.cache.add c.now other secret).2.entries.find? name = none := hafter
    unfold Cache.add at hadd
    split at hadd
    · exact (hsame hadd).elim
    · exact (hinsert _ _ hadd).elim
  | erase other =>
    refine .inl ?_
    have herase : (c.cache.entries.erase other).find? name = none := hafter
    rw [FiniteMap.find?_erase] at herase
    split at herase
    · next heq => rw [eq_of_beq heq]
    · exact (hsame herase).elim
  | start policy expiry =>
    obtain ⟨sweeps, hsweeps⟩ := c.exists_startSweep policy expiry
    have hstart : (c.startSweep policy expiry).2.held? name = none := hafter
    rw [hsweeps] at hstart
    exact (hsame hstart).elim
  | advance duration =>
    rw [now_happen]
    exact .inr (.inr (exists_old_of_runDue (Nat.le_add_right _ _) hbefore hafter))
  | jump duration =>
    rw [now_happen]
    exact .inr (.inr (exists_old_of_runDue (c := { c with now := c.now + duration })
      (Nat.le_refl _) hbefore hafter))
  | delay duration => exact (hsame hafter).elim
  | begin i =>
    have hbegin : (c.beginSweep i).held? name = none := hafter
    unfold beginSweep at hbegin
    split at hbegin <;> exact (hsame hbegin).elim
  | finish i => exact .inr (.inl ⟨i, rfl⟩)

/-! ### All courses of a new cache -/

/-- A sweep that is started is the last one. -/
theorem exists_started (c : SweptCache) (policy : Sweep.Policy) (hexpiry : 0 < expiry) :
    ∃ s, Sweep.start? policy c.now expiry = some s ∧
      c.happen (.start policy expiry) = { c with sweeps := c.sweeps ++ [s] } := by
  obtain ⟨s, hstart⟩ : ∃ s, Sweep.start? policy c.now expiry = some s := by
    unfold Sweep.start?
    exact ⟨_, dif_pos hexpiry⟩
  refine ⟨s, hstart, ?_⟩
  show (c.startSweep policy expiry).2 = _
  rw [startSweep, hstart]

section

variable (hkept : c.dropped = false) (hexpiry : 0 < expiry)
  (hlimit : c.now + policy.period expiry + Sweep.tolerance < Time.limit)

include hkept hexpiry hlimit

/-- A sweep that has just been started is on time for its first deadline. -/
theorem punctual_start :
    (c.happen (.start policy expiry)).Punctual c.sweeps.length policy expiry
      (some (c.now + policy.period expiry)) := by
  obtain ⟨s, hstart, hstep⟩ := c.exists_started policy hexpiry
  obtain ⟨hpolicy, hage, htime, -⟩ := Sweep.onTime_of_start? (c := c) hstart hlimit
  rw [hstep]
  exact ⟨hkept, s, List.getElem?_concat_length, hpolicy, hage, htime.period, htime.phase⟩

/-- A sweep that is started on an empty cache is on time from the beginning. -/
theorem punctual_start_empty (hempty : ∀ name, c.held? name = none) :
    (c.happen (.start policy expiry)).Punctual c.sweeps.length policy expiry none := by
  obtain ⟨s, hstart, hstep⟩ := c.exists_started policy hexpiry
  obtain ⟨hpolicy, hage, -, htime⟩ := Sweep.onTime_of_start? (c := c) hstart hlimit
  rw [hstep]
  exact ⟨hkept, s, List.getElem?_concat_length, hpolicy, hage, (htime hempty).period,
    (htime hempty).phase⟩

end

theorem dropped_follow (hlegal : c.Legal events) (hkept : c.dropped = false) :
    (c.follow events).dropped = false := by
  obtain ⟨steps, hsmall, hsteps, hfollow⟩ := exists_small hlegal
  rw [← hfollow]
  refine follow_invariant (P := fun c => c.dropped = false) ?_ hsmall hsteps hkept
  intro c step hstep _ hc
  exact (dropped_happen c hstep).trans hc

/-- A sweep of a course leaves nothing that is too old, from its first run on. -/
theorem bounds_of_started {before after : List Event} (hkept : c.dropped = false)
    (hlegal : c.Legal (before ++ .start policy expiry :: after)) (hexpiry : 0 < expiry)
    (hsettled : (c.follow (before ++ .start policy expiry :: after)).Settled)
    (hfirst : Time.roundUp ((c.follow before).now + policy.period expiry) ≤
      (c.follow (before ++ .start policy expiry :: after)).now)
    (hlimit : (c.follow (before ++ .start policy expiry :: after)).now + policy.period expiry +
      Sweep.tolerance < Time.limit) :
    (c.follow (before ++ .start policy expiry :: after)).Bounds policy expiry
      ((c.follow (before ++ .start policy expiry :: after)).now % Time.millisecond) := by
  obtain ⟨hbefore, -, hafter⟩ := (legal_append _ _ _).1 hlegal
  rw [follow_append, follow_cons] at hsettled hfirst hlimit ⊢
  have hpast : (c.follow before).now ≤
      (((c.follow before).happen (.start policy expiry)).follow after).now :=
    now_le_follow _ (.start policy expiry :: after)
  have hearlier : (c.follow before).now + policy.period expiry + Sweep.tolerance < Time.limit :=
    Nat.lt_of_le_of_lt (by omega) hlimit
  have hstart := punctual_start (dropped_follow hbefore hkept) hexpiry hearlier
  refine (hstart.follow hexpiry hafter hlimit).bounds hexpiry hsettled ?_
  rintro deadline ⟨⟩
  exact hfirst

/-- **The sweeps of a cache evict neither early nor late.** Every course of a new cache is one of
small events, and in any course, whatever comes in between the two steps of a run, an entry that the
run removes had reached the expiry of the sweep, with the stamp that it is removed with, when the
sweep read the clock. What goes otherwise was removed by its name, or went while time passed and had
reached the expiry of a sweep. When no run is due or half made, which is so after whole events, and
the first run of a sweep has been made, what is left is younger than the expiry and one period
together, but for the part of a millisecond that the clock shows; one and a half times the expiry
for a sweep that counts use. Where time passes in whole milliseconds there is no such part. What the
ages are in terms of the events of a course is said by `age_follow`. -/
theorem evicts_neither_early_nor_late {origin : Nat} (hlegal : (new origin).Legal events) :
    (∃ steps : List Event, (∀ step ∈ steps, step.Small) ∧ (new origin).Legal steps ∧
      (new origin).follow steps = (new origin).follow events) ∧
    (∀ before between i name e, events = before ++ .begin i :: (between ++ [.finish i]) →
      (∀ event ∈ between, ¬event.IsStepOf i) →
      ((new origin).follow (before ++ .begin i :: between)).held? name = some e →
      ((new origin).follow events).held? name = none →
      ∃ s f, ((new origin).follow before).sweeps[i]? = some s ∧
        ((new origin).follow before).held? name = some f ∧
        s.policy.stamp f = s.policy.stamp e ∧
        s.expiry ≤ s.policy.age ((new origin).follow before).now f) ∧
    (∀ before event name e, events = before ++ [event] →
      ((new origin).follow before).held? name = some e →
      ((new origin).follow events).held? name = none →
      event = .erase name ∨ (∃ i, event = .finish i) ∨
        ∃ s ∈ ((new origin).follow before).sweeps,
          s.expiry ≤ s.policy.age ((new origin).follow events).now e) ∧
    ((∀ event ∈ events, event.Whole) → ((new origin).follow events).Settled) ∧
    ∀ before policy expiry after, events = before ++ .start policy expiry :: after → 0 < expiry →
      ((new origin).follow events).Settled →
      Time.roundUp (((new origin).follow before).now + policy.period expiry) ≤
        ((new origin).follow events).now →
      ((new origin).follow events).now + policy.period expiry + Sweep.tolerance < Time.limit →
      ((new origin).follow events).Bounds policy expiry
          (((new origin).follow events).now % Time.millisecond) ∧
        (Time.millisecond ∣ origin → (∀ event ∈ events, Time.millisecond ∣ event.duration) →
          ((new origin).follow events).Bounds policy expiry 0) := by
  refine ⟨exists_small hlegal, ?_, ?_, ?_, ?_⟩
  · rintro before between i name e rfl hothers hheld hgone
    obtain ⟨hbefore, hallows, -⟩ := (legal_append _ _ _).1 hlegal
    have hexpiry := expiry_pos_of_follow hbefore (c := new origin)
      fun s hs => absurd hs List.not_mem_nil
    refine exists_old_of_removed hallows hexpiry hothers ?_ ?_
    · rwa [follow_append] at hheld
    · rw [follow_append, follow_cons, follow_append] at hgone
      exact hgone
  · rintro before event name e rfl hheld hgone
    rw [follow_append] at hgone ⊢
    exact cases_of_removed hheld hgone
  · intro hwhole
    exact follow_invariant (P := Settled) (fun c event hevent _ hc => hc.happen hevent) hwhole
      hlegal (settled_new origin)
  · rintro before policy expiry after rfl hexpiry hsettled hfirst hlimit
    have hbounds := bounds_of_started rfl hlegal hexpiry hsettled hfirst hlimit
    refine ⟨hbounds, fun horigin hdurations => ?_⟩
    rwa [Nat.mod_eq_zero_of_dvd (dvd_now_follow hdurations horigin)] at hbounds

namespace Sample

/-- A secret of one byte. -/
def byte : Secret := ⟨[7], by decide, by decide⟩

/-- A sweep that is late reads the clock, and another secret is put in before it removes
anything. -/
def lateRun : List Event :=
  [.start .unused (2 * Time.millisecond), .set "a" byte, .delay (7 * Time.millisecond), .begin 0,
    .set "b" byte, .finish 0]

end Sample

/-- A late run removes what was there, and leaves what came in between. -/
theorem evicts_neither_early_nor_late_lateRun :
    let c := (new 0).follow Sample.lateRun
    (new 0).Legal Sample.lateRun ∧ c.held? "a" = none ∧ c.held? "b" ≠ none ∧
      (∃ s f, ((new 0).follow (Sample.lateRun.take 3)).sweeps[0]? = some s ∧
        ((new 0).follow (Sample.lateRun.take 3)).held? "a" = some f ∧
        s.policy.stamp f = 0 ∧ s.expiry ≤ s.policy.age (7 * Time.millisecond) f) ∧
      c.Bounds .unused (2 * Time.millisecond) 0 := by
  intro c
  have hlegal : (new 0).Legal Sample.lateRun := by decide +kernel
  have hgone : c.held? "a" = none := by decide +kernel
  obtain ⟨-, hold, -, -, hyoung⟩ := evicts_neither_early_nor_late hlegal
  refine ⟨hlegal, hgone, by decide +kernel, ?_, ?_⟩
  · have hnow : ((new 0).follow (Sample.lateRun.take 3)).now = 7 * Time.millisecond := by
      decide +kernel
    obtain ⟨s, f, hs, hf, hstamp, hage⟩ := hold (Sample.lateRun.take 3) [.set "b" Sample.byte] 0 "a"
      (.new 0 Sample.byte) rfl (by simp [Event.IsStepOf]) (by decide +kernel) hgone
    exact ⟨s, f, hs, hf, hstamp.trans (s.policy.stamp_new _ _), hnow ▸ hage⟩
  · have hphases : c.sweeps.map Sweep.phase = [.waiting (8 * Time.millisecond)] := by
      decide +kernel
    have hwaits (s : Sweep) (hs : s ∈ c.sweeps) : s.phase = .waiting (8 * Time.millisecond) := by
      have hphase := List.mem_map_of_mem (f := Sweep.phase) hs
      rw [hphases] at hphase
      exact List.mem_singleton.1 hphase
    have hsettled : c.Settled := by
      refine ⟨fun s hs wake hwake => ?_, fun s hs clock deadline hphase => ?_⟩
      · rw [Sweep.wake?, hwaits s hs] at hwake
        obtain rfl := Option.some.inj hwake
        decide +kernel
      · cases (hwaits s hs).symm.trans hphase
    exact (hyoung [] .unused (2 * Time.millisecond) _ rfl (by decide) hsettled (by decide +kernel)
      (by decide +kernel)).2 (by decide) (by decide)

end SweptCache

end Keyring
