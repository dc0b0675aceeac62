import Keyring.Proofs.Cache.Schedule

/-!
# Courses of a cache

What happens to a cache with its sweeps, one event after the other: its operations, sweeps that are
started, time that passes, and the two steps of a run of a sweep. A sweep reads the clock when its
deadline has passed, and other events may come in before it removes anything. Time may also pass
while sweeps that are due have not run yet.

Time that passes with the sweeps at their times (`advance`, `jump`) is a course of smaller events,
so what the smaller events keep is kept by all.

- `SweptCache.Event`, `SweptCache.happen`, `SweptCache.follow`: events, and what they do;
- `SweptCache.Legal`: a course in which no sweep reads the clock before its time;
- `SweptCache.exists_small`: each course is one of small events;
- `SweptCache.stampBy?_happen`: an event stamps an entry with its own time, or not at all;
- `SweptCache.age_follow`: the age of an entry is counted from the last event that stamps it;
- `SweptCache.Settled`: no run of a sweep is due or half made.
-/

namespace Keyring

namespace Sweep

/-- What the age of an entry is measured from. -/
def Policy.stamp : Policy → Cache.Entry → Nat
  | .created, e => e.createdAt
  | .unused, e => e.lastUsed

theorem Policy.age_eq (policy : Policy) (now : Nat) (e : Cache.Entry) :
    policy.age now e = now - policy.stamp e := by
  cases policy <;> rfl

@[simp] theorem Policy.stamp_new (policy : Policy) (now : Nat) (secret : Secret) :
    policy.stamp (.new now secret) = now := by
  cases policy <;> rfl

/-- A sweep that is to wake waits for a deadline. -/
theorem exists_waiting {s : Sweep} {wake : Nat} (h : s.wake? = some wake) :
    ∃ deadline, s.phase = .waiting deadline ∧ wake = Time.roundUp deadline := by
  unfold wake? at h
  split at h
  · next deadline hphase => exact ⟨deadline, hphase, (Option.some.inj h).symm⟩
  · cases h

end Sweep

namespace SweptCache

/-- What happens to a cache with sweeps. -/
inductive Event where
  /-- A name is looked up. -/
  | get (name : String)
  /-- A secret is put in, in place of what was there. -/
  | set (name : String) (secret : Secret)
  /-- A secret is put in unless there is one. -/
  | add (name : String) (secret : Secret)
  /-- A name is removed. -/
  | erase (name : String)
  /-- A sweep is started. -/
  | start (policy : Sweep.Policy) (expiry : Nat)
  /-- Time passes, and every sweep runs at its time. -/
  | advance (duration : Nat)
  /-- The clock moves at once, and the sweeps that are overdue then run. -/
  | jump (duration : Nat)
  /-- The clock moves, and no sweep has run yet. -/
  | delay (duration : Nat)
  /-- A sweep reads the clock. -/
  | begin (i : Nat)
  /-- A sweep that has read the clock removes what was too old then. -/
  | finish (i : Nat)

namespace Event

/-- Events that are not made of others. -/
def Small : Event → Prop
  | .advance _ | .jump _ => False
  | _ => True

/-- Events between which every sweep that is due has run. -/
def Whole : Event → Prop
  | .delay _ | .begin _ | .finish _ => False
  | _ => True

/-- A step of a run of a certain sweep. -/
def IsStepOf (i : Nat) : Event → Prop
  | .begin j | .finish j => j = i
  | _ => False

/-- How far an event moves the clock. -/
def duration : Event → Nat
  | .advance duration | .jump duration | .delay duration => duration
  | _ => 0

end Event

/-- What an event does. -/
def happen (c : SweptCache) : Event → SweptCache
  | .get name => (c.get name).2
  | .set name secret => c.set name secret
  | .add name secret => (c.add name secret).2
  | .erase name => c.erase name
  | .start policy expiry => (c.startSweep policy expiry).2
  | .advance duration => c.advance duration
  | .jump duration => c.jump duration
  | .delay duration => { c with now := c.now + duration }
  | .begin i => c.beginSweep i
  | .finish i => c.finishSweep i

/-- What events do, one after the other. -/
def follow (c : SweptCache) (events : List Event) : SweptCache := events.foldl happen c

/-- A sweep only reads the clock when its deadline has passed. -/
def Allows (c : SweptCache) : Event → Prop
  | .begin i => ∃ s wake, c.sweeps[i]? = some s ∧ s.wake? = some wake ∧ wake ≤ c.now
  | _ => True

/-- No event of a course comes before its time. -/
def Legal : SweptCache → List Event → Prop
  | _, [] => True
  | c, event :: events => c.Allows event ∧ (c.happen event).Legal events

instance (c : SweptCache) (event : Event) : Decidable (c.Allows event) :=
  match event with
  | .begin i => decidable_of_iff ((c.sweeps[i]?.bind Sweep.wake?).any (· ≤ c.now)) (by
      simp only [Allows, Option.any_eq_true, Option.bind_eq_some_iff, decide_eq_true_eq]
      exact ⟨fun ⟨wake, ⟨s, hs, hwake⟩, hdue⟩ => ⟨s, wake, hs, hwake, hdue⟩,
        fun ⟨s, wake, hs, hwake, hdue⟩ => ⟨wake, ⟨s, hs, hwake⟩, hdue⟩⟩)
  | .get _ | .set _ _ | .add _ _ | .erase _ | .start _ _ | .advance _ | .jump _ | .delay _
  | .finish _ => instDecidableTrue

/-- Whether a course is legal can be decided. -/
def decidableLegal : (c : SweptCache) → (events : List Event) → Decidable (c.Legal events)
  | _, [] => instDecidableTrue
  | c, event :: events =>
    have := decidableLegal (c.happen event) events
    inferInstanceAs (Decidable (c.Allows event ∧ (c.happen event).Legal events))

instance (c : SweptCache) (events : List Event) : Decidable (c.Legal events) :=
  decidableLegal c events

/-- The time from which the age of the entry of a name is measured. -/
def stampBy? (c : SweptCache) (policy : Sweep.Policy) (name : String) : Option Nat :=
  (c.held? name).map policy.stamp

/-- Each sweep that is due has run, and none has read the clock for another run. -/
structure Settled (c : SweptCache) : Prop where
  quiet : c.Quiet
  rest : ∀ s ∈ c.sweeps, ∀ clock deadline, s.phase ≠ .clearing clock deadline

variable {c d : SweptCache} {event : Event} {events : List Event} {i t : Nat} {name : String}
  {policy : Sweep.Policy} {stamp : Nat}

@[simp] theorem follow_nil (c : SweptCache) : c.follow [] = c := rfl

@[simp] theorem follow_cons (c : SweptCache) (event : Event) (events : List Event) :
    c.follow (event :: events) = (c.happen event).follow events := rfl

@[simp] theorem follow_append (c : SweptCache) (first second : List Event) :
    c.follow (first ++ second) = (c.follow first).follow second :=
  List.foldl_append

@[simp] theorem legal_append (c : SweptCache) (first second : List Event) :
    c.Legal (first ++ second) ↔ c.Legal first ∧ (c.follow first).Legal second := by
  induction first generalizing c with
  | nil => simp [Legal]
  | cons event first ih => simp only [List.cons_append, Legal, ih, follow_cons, and_assoc]

/-- What each event keeps holds after a course. -/
theorem follow_invariant {P : SweptCache → Prop} {Q : Event → Prop}
    (hstep : ∀ c event, Q event → c.Allows event → P c → P (c.happen event))
    (hevents : ∀ event ∈ events, Q event) (hlegal : c.Legal events) (hc : P c) :
    P (c.follow events) := by
  induction events generalizing c with
  | nil => exact hc
  | cons event events ih =>
    have hevent : Q event := hevents event List.mem_cons_self
    refine ih (fun other hother => hevents other (List.mem_cons_of_mem _ hother)) hlegal.2 ?_
    exact hstep c event hevent hlegal.1 hc

/-! ### Time that passes is made of small events -/

/-- A whole run of a sweep, with time that passes before it. -/
theorem follow_run {wake : Nat} (h : c.first? = some (i, wake)) :
    c.follow [.delay (max c.now wake - c.now), .begin i, .finish i] =
      c.runSweep (max c.now wake) i := by
  obtain ⟨s, hs, -⟩ := first?_eq_some h
  have hnow : c.now + (max c.now wake - c.now) = max c.now wake := by omega
  have hlength : i < c.sweeps.length := (List.getElem?_eq_some_iff.1 hs).1
  simp only [follow_cons, follow_nil, happen, hnow]
  -- the sweep that begins is the one that finishes
  rw [beginSweep, runSweep, hs]
  simp only [finishSweep, List.getElem?_set_self hlength, List.set_set]
  rfl

/-- Sweeps that run while they are due are a course of small events. -/
theorem exists_small_runDue (c : SweptCache) (t : Nat) :
    ∃ steps : List Event, (∀ step ∈ steps, step.Small) ∧ c.Legal steps ∧
      c.follow steps = c.runDue t := by
  induction c using runDue.induct (t := t) with
  | case1 c hnone =>
    exact ⟨[], by simp, trivial, (runDue_of_none hnone).symm⟩
  | case2 c i wake hfirst hdue _ ih =>
    obtain ⟨steps, hsmall, hlegal, hfollow⟩ := ih
    obtain ⟨s, hs, hwake⟩ := first?_eq_some hfirst
    refine ⟨[.delay (max c.now wake - c.now), .begin i, .finish i] ++ steps, ?_, ?_, ?_⟩
    · intro step hstep
      rcases List.mem_append.1 hstep with hstep | hstep
      · simp only [List.mem_cons, List.not_mem_nil, or_false] at hstep
        rcases hstep with rfl | rfl | rfl <;> trivial
      · exact hsmall step hstep
    · rw [legal_append, follow_run hfirst]
      refine ⟨⟨trivial, ⟨s, wake, hs, hwake, ?_⟩, trivial, trivial⟩, hlegal⟩
      show wake ≤ c.now + (max c.now wake - c.now)
      omega
    · rw [follow_append, follow_run hfirst, hfollow, runDue_of_due hfirst hdue]
  | case3 c i wake hfirst hlater =>
    exact ⟨[], by simp, trivial, (runDue_of_later hfirst hlater).symm⟩

/-- An event is a course of small events. -/
theorem exists_small_happen (c : SweptCache) (event : Event) (hallows : c.Allows event) :
    ∃ steps : List Event, (∀ step ∈ steps, step.Small) ∧ c.Legal steps ∧
      c.follow steps = c.happen event := by
  have hself (hsmall : event.Small) : ∃ steps : List Event, (∀ step ∈ steps, step.Small) ∧
      c.Legal steps ∧ c.follow steps = c.happen event :=
    ⟨[event], by simpa using hsmall, ⟨hallows, trivial⟩, rfl⟩
  cases event with
  | advance duration =>
    obtain ⟨steps, hsmall, hlegal, hfollow⟩ := exists_small_runDue c (c.now + duration)
    have hnow := now_runDue (c := c) (Nat.le_add_right c.now duration)
    refine ⟨steps ++ [.delay (c.now + duration - (c.runDue (c.now + duration)).now)], ?_, ?_, ?_⟩
    · intro step hstep
      rcases List.mem_append.1 hstep with hstep | hstep
      · exact hsmall step hstep
      · rw [List.mem_singleton.1 hstep]
        trivial
    · exact (legal_append _ _ _).2 ⟨hlegal, trivial, trivial⟩
    · rw [follow_append, hfollow, follow_cons, follow_nil]
      simp only [happen, advance, advanceTo, Nat.add_sub_cancel' hnow.2, Nat.max_eq_right hnow.2]
  | jump duration =>
    obtain ⟨steps, hsmall, hlegal, hfollow⟩ :=
      exists_small_runDue { c with now := c.now + duration } (c.now + duration)
    refine ⟨.delay duration :: steps, ?_, ⟨trivial, hlegal⟩, hfollow⟩
    intro step hstep
    rcases List.mem_cons.1 hstep with rfl | hstep
    · trivial
    · exact hsmall step hstep
  | get | set | add | erase | start | delay | begin | finish => exact hself trivial

/-- **Each course is one of small events.** -/
theorem exists_small (hlegal : c.Legal events) :
    ∃ steps : List Event, (∀ step ∈ steps, step.Small) ∧ c.Legal steps ∧
      c.follow steps = c.follow events := by
  induction events generalizing c with
  | nil => exact ⟨[], by simp, trivial, rfl⟩
  | cons event events ih =>
    obtain ⟨first, hfirst, hlegalFirst, hfollowFirst⟩ := exists_small_happen c event hlegal.1
    obtain ⟨rest, hrest, hlegalRest, hfollowRest⟩ := ih hlegal.2
    refine ⟨first ++ rest, ?_, ?_, ?_⟩
    · intro step hstep
      exact (List.mem_append.1 hstep).elim (hfirst step) (hrest step)
    · exact (legal_append _ _ _).2 ⟨hlegalFirst, hfollowFirst ▸ hlegalRest⟩
    · rw [follow_append, hfollowFirst, hfollowRest, follow_cons]

/-! ### The clock -/

theorem now_happen (c : SweptCache) (event : Event) :
    (c.happen event).now = c.now + event.duration := by
  cases event with
  | advance duration => exact now_advance c duration
  | jump duration => exact now_jump c duration
  | start policy expiry =>
    obtain ⟨sweeps, hsweeps⟩ := c.exists_startSweep policy expiry
    show (c.startSweep policy expiry).2.now = c.now + 0
    rw [hsweeps, Nat.add_zero]
  | begin i =>
    show (c.beginSweep i).now = c.now + 0
    unfold beginSweep
    split <;> rfl
  | finish i =>
    show (c.finishSweep i).now = c.now + 0
    unfold finishSweep
    split <;> rfl
  | get | set | add | erase | delay => rfl

theorem now_le_follow (c : SweptCache) (events : List Event) : c.now ≤ (c.follow events).now := by
  induction events generalizing c with
  | nil => exact Nat.le_refl _
  | cons event events ih =>
    have hevent := now_happen c event
    exact Nat.le_trans (by omega) (ih (c.happen event))

/-- Where time passes in whole parts of a length, the clock shows whole ones. -/
theorem dvd_now_follow {unit : Nat} (hevents : ∀ event ∈ events, unit ∣ event.duration)
    (hnow : unit ∣ c.now) : unit ∣ (c.follow events).now := by
  induction events generalizing c with
  | nil => exact hnow
  | cons event events ih =>
    refine ih (fun other hother => hevents other (List.mem_cons_of_mem _ hother)) ?_
    rw [now_happen]
    exact Nat.dvd_add hnow (hevents event List.mem_cons_self)

/-! ### Stamps -/

theorem exists_held_of_stampBy? (h : c.stampBy? policy name = some stamp) :
    ∃ e, c.held? name = some e ∧ policy.stamp e = stamp :=
  Option.map_eq_some_iff.1 h

theorem held?_of_finishSweep {e : Cache.Entry} (h : (c.finishSweep i).held? name = some e) :
    c.held? name = some e := by
  unfold finishSweep at h
  split at h
  · exact h
  · next s _ =>
    show c.cache.entries.find? name = some e
    -- the second step of a run only removes entries
    unfold held? Sweep.finish at h
    split at h
    · rw [Sweep.find?_retain, Option.filter_eq_some_iff] at h
      exact h.1
    · exact h

/-- What stamps an entry by a policy: a secret that is put in, be it in place of another one or
where there was none, and for the policy that counts use a name that is looked up and found. -/
def Event.Stamps (c : SweptCache) (policy : Sweep.Policy) (name : String) : Event → Prop
  | .set other _ => name = other
  | .add other _ => name = other ∧ c.held? name = none
  | .get other => name = other ∧ policy = .unused ∧ c.held? name ≠ none
  | _ => False

/-- An event that stamps an entry stamps it with its own time. -/
theorem stampBy?_happen_of_stamps (h : event.Stamps c policy name) :
    (c.happen event).stampBy? policy name = some c.now := by
  cases event with
  | set other secret =>
    obtain rfl : name = other := h
    simp [stampBy?, held?, happen, SweptCache.set, Cache.set]
  | add other secret =>
    obtain ⟨rfl, hnone⟩ := h
    have hnone : c.cache.entries.find? name = none := hnone
    simp [stampBy?, held?, happen, SweptCache.add, Cache.add, hnone]
  | get other =>
    obtain ⟨rfl, rfl, hsome⟩ := h
    obtain ⟨e, he⟩ := Option.ne_none_iff_exists'.1 hsome
    have he : c.cache.entries.find? name = some e := he
    simp [stampBy?, held?, happen, SweptCache.get, Cache.get, he, Sweep.Policy.stamp]
  | erase | start | advance | jump | delay | begin | finish => cases h

/-- An entry that an event leaves and does not stamp was there before, with the same stamp. -/
theorem stampBy?_of_happen (hother : ¬event.Stamps c policy name)
    (h : (c.happen event).stampBy? policy name = some stamp) :
    c.stampBy? policy name = some stamp := by
  obtain ⟨e, he, rfl⟩ := exists_held_of_stampBy? h
  have hold (hheld : c.held? name = some e) :
      c.stampBy? policy name = some (policy.stamp e) := by rw [stampBy?, hheld]; rfl
  cases event with
  | get other =>
    have hget : (c.cache.get c.now other).2.entries.find? name = some e := he
    unfold Cache.get at hget
    split at hget
    · exact hold hget
    · next entry hentry =>
      rw [FiniteMap.find?_insert] at hget
      by_cases hname : name = other
      · -- a hit counts as use, and the entry is as old as before
        subst hname
        rw [if_pos (by simp)] at hget
        obtain rfl := Option.some.inj hget
        cases policy with
        | created => rw [stampBy?, held?, hentry]; rfl
        | unused =>
          have hsome : c.held? name ≠ none := fun hnone => by cases hnone.symm.trans hentry
          exact absurd ⟨rfl, rfl, hsome⟩ hother
      · rw [if_neg (by simpa using hname)] at hget
        exact hold hget
  | set other secret =>
    have hset : (c.cache.set c.now other secret).entries.find? name = some e := he
    have hname : name ≠ other := hother
    rw [Cache.set, FiniteMap.find?_insert, if_neg (by simpa using hname)] at hset
    exact hold hset
  | add other secret =>
    have hadd : (c.cache.add c.now other secret).2.entries.find? name = some e := he
    unfold Cache.add at hadd
    split at hadd
    · exact hold hadd
    · next hnone =>
      have hname : name ≠ other := by
        rintro rfl
        exact hother ⟨rfl, hnone⟩
      rw [FiniteMap.find?_insert, if_neg (by simpa using hname)] at hadd
      exact hold hadd
  | erase other =>
    have herase : (c.cache.erase other).entries.find? name = some e := he
    rw [Cache.erase, FiniteMap.find?_erase] at herase
    by_cases hname : name = other
    · rw [if_pos (by simpa using hname)] at herase
      cases herase
    · rw [if_neg (by simpa using hname)] at herase
      exact hold herase
  | start other expiry =>
    obtain ⟨sweeps, hsweeps⟩ := c.exists_startSweep other expiry
    have hstart : (c.startSweep other expiry).2.held? name = some e := he
    rw [hsweeps] at hstart
    exact hold hstart
  | advance duration => exact hold (held?_of_runDue (t := c.now + duration) he)
  | jump duration =>
    exact hold (held?_of_runDue (c := { c with now := c.now + duration }) he)
  | delay duration => exact hold he
  | begin j =>
    have hbegin : (c.beginSweep j).held? name = some e := he
    unfold beginSweep at hbegin
    split at hbegin <;> exact hold hbegin
  | finish j => exact hold (held?_of_finishSweep he)

/-- An event stamps an entry with its own time, or leaves its stamp. -/
theorem stampBy?_happen (c : SweptCache) (event : Event)
    (h : (c.happen event).stampBy? policy name = some stamp) :
    stamp = c.now ∨ c.stampBy? policy name = some stamp := by
  by_cases hstamps : event.Stamps c policy name
  case pos => exact .inl (Option.some.inj (h.symm.trans (stampBy?_happen_of_stamps hstamps)))
  case neg => exact .inr (stampBy?_of_happen hstamps h)

/-- No event of a course stamps the entry of a name. -/
def Unstamped (policy : Sweep.Policy) (name : String) : SweptCache → List Event → Prop
  | _, [] => True
  | c, event :: events =>
    ¬event.Stamps c policy name ∧ Unstamped policy name (c.happen event) events

/-- The stamp after a course is the one before, or the time of the last event that stamps the
entry. -/
theorem stampBy?_follow (h : (c.follow events).stampBy? policy name = some stamp) :
    c.stampBy? policy name = some stamp ∧ Unstamped policy name c events ∨
      ∃ before event after, events = before ++ event :: after ∧
        event.Stamps (c.follow before) policy name ∧ stamp = (c.follow before).now ∧
        Unstamped policy name ((c.follow before).happen event) after := by
  induction events generalizing c with
  | nil => exact .inl ⟨h, trivial⟩
  | cons event events ih =>
    rcases ih h with ⟨hstamp, hrest⟩ | ⟨before, last, after, rfl, hlast⟩
    · by_cases hstamps : event.Stamps c policy name
      case pos =>
        have htime := Option.some.inj (hstamp.symm.trans (stampBy?_happen_of_stamps hstamps))
        exact .inr ⟨[], event, events, rfl, hstamps, htime, hrest⟩
      case neg => exact .inl ⟨stampBy?_of_happen hstamps hstamp, hstamps, hrest⟩
    · exact .inr ⟨event :: before, last, after, rfl, hlast⟩

/-- **An entry is as old as it is long since it was put in, or last used** where use counts. -/
theorem age_follow {origin : Nat} {e : Cache.Entry} (policy : Sweep.Policy)
    (he : ((new origin).follow events).held? name = some e) :
    ∃ before event after, events = before ++ event :: after ∧
      event.Stamps ((new origin).follow before) policy name ∧
      policy.age ((new origin).follow events).now e =
        ((new origin).follow events).now - ((new origin).follow before).now ∧
      Unstamped policy name (((new origin).follow before).happen event) after := by
  have hstamp : ((new origin).follow events).stampBy? policy name = some (policy.stamp e) := by
    rw [stampBy?, he]
    rfl
  obtain ⟨hnone, -⟩ | ⟨before, event, after, hevents, hstamps, htime, hafter⟩ :=
    stampBy?_follow hstamp
  · cases hnone
  · exact ⟨before, event, after, hevents, hstamps, by rw [policy.age_eq, htime], hafter⟩

/-! ### Sweeps that a course leaves alone -/

/-- A whole run of another sweep leaves a sweep as it is. -/
theorem sweeps_runSweep_ne {j : Nat} (now : Nat) (hne : j ≠ i) :
    (c.runSweep now j).sweeps[i]? = c.sweeps[i]? := by
  unfold runSweep
  split
  · rfl
  · exact List.getElem?_set_ne hne

/-- The runs that are due are those of sweeps that are to wake. -/
theorem sweeps_runDue {s : Sweep} (hs : c.sweeps[i]? = some s) (hwake : s.wake? = none) (t : Nat) :
    (c.runDue t).sweeps[i]? = some s := by
  refine runDue_invariant (P := fun d => d.sweeps[i]? = some s) ?_ hs
  intro d j wake hfirst _ hd
  obtain ⟨other, hother, hwakes⟩ := first?_eq_some hfirst
  have hne : j ≠ i := by
    rintro rfl
    obtain rfl := Option.some.inj (hd.symm.trans hother)
    cases hwake.symm.trans hwakes
  rw [sweeps_runSweep_ne _ hne]
  exact hd

/-- An event that is not a step of a sweep that is not to wake leaves the sweep as it is. -/
theorem sweeps_happen {s : Sweep} (hs : c.sweeps[i]? = some s)
    (hown : ¬event.IsStepOf i) (hwake : s.wake? = none ∨ event.Small) :
    (c.happen event).sweeps[i]? = some s := by
  cases event with
  | start policy expiry =>
    show (c.startSweep policy expiry).2.sweeps[i]? = some s
    unfold startSweep
    split
    · exact hs
    · exact (List.getElem?_append_left (List.getElem?_eq_some_iff.1 hs).1).trans hs
  | advance duration =>
    exact sweeps_runDue hs (hwake.resolve_right id) _
  | jump duration =>
    exact sweeps_runDue (c := { c with now := c.now + duration }) hs (hwake.resolve_right id) _
  | begin j =>
    show (c.beginSweep j).sweeps[i]? = some s
    unfold beginSweep
    split
    · exact hs
    · exact (List.getElem?_set_ne hown).trans hs
  | finish j =>
    show (c.finishSweep j).sweeps[i]? = some s
    unfold finishSweep
    split
    · exact hs
    · exact (List.getElem?_set_ne hown).trans hs
  | get | set | add | erase | delay => exact hs

/-! ### Caches at rest -/

theorem settled_new (now : Nat) : (new now).Settled :=
  ⟨fun _ hs => absurd hs List.not_mem_nil, fun _ hs => absurd hs List.not_mem_nil⟩

/-- Where no sweep has read the clock, the runs that are due leave it so. -/
theorem rest_runDue (h : ∀ s ∈ c.sweeps, ∀ clock deadline, s.phase ≠ .clearing clock deadline)
    (t : Nat) :
    ∀ s ∈ (c.runDue t).sweeps, ∀ clock deadline, s.phase ≠ .clearing clock deadline := by
  refine runDue_invariant (P := fun d : SweptCache =>
    ∀ s ∈ d.sweeps, ∀ clock deadline, s.phase ≠ .clearing clock deadline) ?_ h
  intro d i wake hfirst _ hd
  obtain ⟨s, hs, -⟩ := first?_eq_some hfirst
  have hrun := Sweep.run_cases (hd s (List.mem_of_getElem? hs)) (max d.now wake) d.dropped d.cache
  unfold runSweep
  rw [hs]
  intro other hother
  rcases List.mem_or_eq_of_mem_set hother with hother | rfl
  · exact hd other hother
  · exact hrun.2.2.2

/-- A sweep that has just been started has not read the clock. -/
theorem rest_of_start? {s : Sweep} {now expiry : Nat}
    (h : Sweep.start? policy now expiry = some s) (clock deadline : Nat) :
    s.phase ≠ .clearing clock deadline := by
  unfold Sweep.start? at h
  split at h <;> cases h
  cases Time.after? now (policy.period expiry) <;> simp [Sweep.Phase.await]

/-- **After an event between which sweeps have run, no run of a sweep is due or half made.** -/
theorem Settled.happen (h : c.Settled) (hwhole : event.Whole) : (c.happen event).Settled := by
  cases event with
  | start policy expiry =>
    refine ⟨h.quiet.startSweep policy expiry, ?_⟩
    intro s hs
    change s ∈ (c.startSweep policy expiry).2.sweeps at hs
    unfold startSweep at hs
    split at hs
    · exact h.rest s hs
    · next started hstart =>
      rcases List.mem_append.1 hs with hs | hs
      · exact h.rest s hs
      · rw [List.mem_singleton.1 hs]
        exact rest_of_start? hstart
  | advance duration =>
    refine ⟨?_, rest_runDue h.rest _⟩
    intro s hs wake hwake
    show (c.advance duration).now < wake
    rw [now_advance]
    exact lt_wake_runDue c _ s hs wake hwake
  | jump duration =>
    refine ⟨?_, rest_runDue (c := { c with now := c.now + duration }) h.rest _⟩
    intro s hs wake hwake
    show (c.jump duration).now < wake
    rw [now_jump]
    exact lt_wake_runDue _ _ s hs wake hwake
  | get | set | add | erase => exact ⟨h.quiet, h.rest⟩
  | delay | begin | finish => exact absurd hwhole id

end SweptCache

end Keyring
