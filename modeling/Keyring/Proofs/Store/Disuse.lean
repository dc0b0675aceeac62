import Keyring.Proofs.Store.Refetch

/-!
# Names that nobody uses

Somebody makes calls to a key store whose entries expire when they are not used, one call after the
other, and lets time pass between them. The device and the key management system answer as they
like, and calls may fail. A name is then cached for at most one and a half times the expiry after it
was used for the last time, and the next get of it reads the backend again.

A name is used by a get that gives its secret, by a call that creates it, and by a call that is
refused to create it because it is cached: that call, too, looks the name up, and so keeps in the
cache what nobody has read.

- `Deed`, `deed`, `deedAll`: what is done, and what comes of it;
- `Renews`, `Uses`, `UsedAt`: the deeds that use a name, and their times;
- `Scheduled`: the sweep by use is on time, or nothing is cached yet;
- `Followed`, `Followed.concat`: what holds after any deeds;
- `unused_not_cached`: a name that was not used lately is not cached, and is read again;
- `cached_though_unread`: a refused call keeps a name in the cache that nobody reads.
-/

namespace Keyring.Store

/-- What is done with a store by its only caller. -/
inductive Deed where
  /-- Make a call, and so many steps of it. -/
  | call (name : String) (operation : Operation) (steps : Nat) (answers : Nat → Stage → Reply)
  /-- Let time pass continuously. -/
  | advance (duration : Nat)
  /-- Move the clock at once. -/
  | jump (duration : Nat)

/-- Do something; `n` is the number of a call that is made. -/
def deed (n : Nat) (s : Store) : Deed → Store
  | .call name operation steps answers => (s.call n name operation).runFor answers n steps
  | .advance duration => { s with cache := s.cache.advance duration }
  | .jump duration => { s with cache := s.cache.jump duration }

/-- Do some things, one after the other. -/
def deedAll (n : Nat) (s : Store) : List Deed → Store
  | [] => s
  | d :: deeds => (s.deed n d).deedAll (n + 1) deeds

/-- A call that is made has ended. -/
def Deed.Ends (n : Nat) (s : Store) : Deed → Prop
  | .call name operation steps answers =>
    (s.deed n (.call name operation steps answers)).outcome? n ≠ none
  | .advance _ | .jump _ => True

/-- All calls that are made have ended, each before the next deed. -/
def EndsAll (n : Nat) (s : Store) : List Deed → Prop
  | [] => True
  | d :: deeds => d.Ends n s ∧ (s.deed n d).EndsAll (n + 1) deeds

instance (n : Nat) (s : Store) (d : Deed) : Decidable (d.Ends n s) :=
  match d with
  | .call name operation steps answers =>
    decidable_of_iff (((s.call n name operation).runFor answers n steps).outcome? n).isSome
      Option.isSome_iff_ne_none
  | .advance _ | .jump _ => instDecidableTrue

/-- Whether all calls have ended can be decided. -/
def decidableEndsAll : (n : Nat) → (s : Store) → (deeds : List Deed) → Decidable (s.EndsAll n deeds)
  | _, _, [] => instDecidableTrue
  | n, s, d :: deeds =>
    have := decidableEndsAll (n + 1) (s.deed n d) deeds
    inferInstanceAs (Decidable (d.Ends n s ∧ (s.deed n d).EndsAll (n + 1) deeds))

instance (n : Nat) (s : Store) (deeds : List Deed) : Decidable (s.EndsAll n deeds) :=
  decidableEndsAll n s deeds

/-- A deed gives the secret of a name, or creates its key. -/
inductive Renews (n : Nat) (s : Store) (name : String) : Deed → Prop where
  | got {steps : Nat} {answers : Nat → Stage → Reply} {answer : Answer}
    (h : (s.deed n (.call name .get steps answers)).outcome? n = some (.ok answer)) :
    Renews n s name (.call name .get steps answers)
  | created {secret : Secret} {steps : Nat} {answers : Nat → Stage → Reply} {answer : Answer}
    (h : (s.deed n (.call name (.create secret) steps answers)).outcome? n = some (.ok answer)) :
    Renews n s name (.call name (.create secret) steps answers)

/-- A deed uses a name. -/
inductive Uses (n : Nat) (s : Store) (name : String) : Deed → Prop where
  | renews {d : Deed} (h : Renews n s name d) : Uses n s name d
  -- a call that finds the name cached is refused, but has looked it up
  | refused {secret : Secret} {steps : Nat} {answers : Nat → Stage → Reply}
    (hcached : s.cached? name ≠ none)
    (h : (s.deed n (.call name (.create secret) steps answers)).outcome? n =
      some (.error .keyExists)) :
    Uses n s name (.call name (.create secret) steps answers)

/-- Among some deeds is one of a kind, at a time. -/
def OccursAt (kind : Nat → Store → Deed → Prop) (s : Store) (deeds : List Deed) (time : Nat) :
    Prop :=
  ∃ earlier d later, deeds = earlier ++ d :: later ∧
    kind earlier.length (s.deedAll 0 earlier) d ∧ time = (s.deedAll 0 earlier).cache.now

/-- Some deeds use a name at a time. -/
def UsedAt (s : Store) (deeds : List Deed) (name : String) (time : Nat) : Prop :=
  s.OccursAt (fun n t d => t.Uses n name d) deeds time

/-- The sweep by use is on time, if the sweeps have been started; before that nothing is cached. -/
structure Scheduled (s : Store) : Prop where
  running : s.started = true →
    s.cache.Punctual 0 .unused s.settings.unusedExpiry none ∧ s.cache.Settled
  before : s.started = false →
    s.cache.sweeps = [] ∧ s.cache.dropped = false ∧ ∀ name, s.used? name = none

/-- The clock can tell the next deadline of the sweep by use. -/
def Clocked (s : Store) : Prop :=
  s.cache.now + Sweep.Policy.unused.period s.settings.unusedExpiry + Sweep.tolerance < Time.limit

section

variable {settings : Settings} {s t : Store} {n time : Nat} {name : String} {d : Deed}
  {deeds before after : List Deed} {call : Call} {outcome : Outcome}

/-! ### Lists of deeds -/

theorem deedAll_append (s : Store) (n : Nat) (before after : List Deed) :
    s.deedAll n (before ++ after) =
      (s.deedAll n before).deedAll (n + before.length) after := by
  induction before generalizing s n with
  | nil => rfl
  | cons d before ih =>
    rw [List.cons_append, deedAll, ih, deedAll, List.length_cons, Nat.add_right_comm, Nat.add_assoc]

theorem endsAll_append :
    s.EndsAll n (before ++ after) ↔
      s.EndsAll n before ∧ (s.deedAll n before).EndsAll (n + before.length) after := by
  induction before generalizing s n with
  | nil => simp [EndsAll, deedAll]
  | cons d before ih =>
    simp only [List.cons_append, EndsAll, ih, deedAll, List.length_cons, and_assoc,
      Nat.add_right_comm n, ← Nat.add_assoc]

theorem UsedAt.concat (h : s.UsedAt deeds name time) (d : Deed) :
    s.UsedAt (deeds ++ [d]) name time := by
  obtain ⟨earlier, one, later, rfl, huses, htime⟩ := h
  exact ⟨earlier, one, later ++ [d], by simp, huses, htime⟩

/-! ### The schedule -/

theorem scheduled_new (settings : Settings) (disk : Disk) (now : Nat) :
    (new settings disk now).Scheduled :=
  ⟨fun hstarted => (by cases hstarted), fun _ => ⟨rfl, rfl, fun _ => rfl⟩⟩

/-- Checking a name starts the sweep by use on time, where it is the only one. -/
theorem Scheduled.opened (h : s.Scheduled) (hexpiry : s.settings.expiry = 0)
    (hunused : 0 < s.settings.unusedExpiry) (hclock : s.Clocked) (name : String) :
    (s.opened name).Scheduled := by
  unfold Store.opened startSweeps
  split
  case isFalse => exact h
  case isTrue =>
    split
    case isTrue => exact h
    case isFalse hstarted =>
      obtain ⟨hsweeps, hkept, hnone⟩ := h.before (by simpa using hstarted)
      refine ⟨fun _ => ?_, fun hfalse => by cases hfalse⟩
      rw [hexpiry, SweptCache.startSweep_zero]
      have hempty (name : String) : s.cache.held? name = none :=
        Option.map_eq_none_iff.1 (hnone name)
      have hsettled : s.cache.Settled :=
        ⟨fun sweep hsweep => by simp [hsweeps] at hsweep,
          fun sweep hsweep => by simp [hsweeps] at hsweep⟩
      have hpunctual := SweptCache.punctual_start_empty hkept hunused hclock hempty
      rw [hsweeps] at hpunctual
      have hstarted : (s.cache.happen (.start .unused s.settings.unusedExpiry)).Settled :=
        hsettled.happen trivial
      exact ⟨hpunctual, hstarted⟩

/-- A call that has ended keeps the schedule. -/
theorem Marks.scheduled {operation : Operation} (h : s.Marks t ⟨name, operation, .finished outcome⟩)
    (hs : s.Scheduled) (hexpiry : s.settings.expiry = 0) (hunused : 0 < s.settings.unusedExpiry)
    (hclock : s.Clocked) : t.Scheduled := by
  have hopened := hs.opened hexpiry hunused hclock name
  obtain ⟨sweeps, hcache⟩ := s.exists_opened name
  have htsweeps : t.cache.sweeps = (s.opened name).cache.sweeps := h.tally.sweeps
  have htstarted : t.started = (s.opened name).started := h.tally.started
  have hsettings : (s.opened name).settings = s.settings := by
    unfold Store.opened startSweeps
    split <;> first | rfl | (split <;> rfl)
  constructor
  · intro hstarted
    obtain ⟨hpunctual, hsettled⟩ := hopened.running (htstarted ▸ hstarted)
    rw [hsettings] at hpunctual
    rw [h.tally.settings]
    have hnow : t.cache.now = (s.opened name).cache.now := by rw [h.tally.now, hcache]
    refine ⟨hpunctual.of_stamps hunused hnow ?_ htsweeps fun other time htime => ?_, ?_, ?_⟩
    · rw [h.tally.kept, hcache]
    · rw [hcache]
      rcases h.uses htime with hold | ⟨-, hnew, -⟩
      · exact .inr hold
      · exact .inl hnew
    · intro sweep hsweep wake hwake
      rw [hnow]
      exact hsettled.quiet sweep (htsweeps ▸ hsweep) wake hwake
    · exact fun sweep hsweep => hsettled.rest sweep (htsweeps ▸ hsweep)
  · intro hstarted
    -- the name is not valid, and nothing was started
    have hsame : s.opened name = s ∧ ¬KeyName.Valid name := by
      rw [htstarted] at hstarted
      unfold Store.opened startSweeps at hstarted ⊢
      split at hstarted
      · split at hstarted
        · next htrue => cases htrue.symm.trans hstarted
        · cases hstarted
      · next hinvalid => exact ⟨if_neg hinvalid, hinvalid⟩
    obtain ⟨hsweeps, hkept, hnone⟩ := hs.before (by rw [← hsame.1, ← htstarted, hstarted])
    refine ⟨by rw [htsweeps, hsame.1, hsweeps], h.tally.kept.trans hkept, fun other => ?_⟩
    by_contra hsome
    obtain ⟨time, htime⟩ := Option.ne_none_iff_exists'.1 hsome
    rcases h.uses htime with hold | ⟨-, -, ⟨hvalid, -⟩ | ⟨hcached, -⟩⟩
    · cases (hnone other).symm.trans hold
    · exact hsame.2 hvalid
    · exact hcached (used?_eq_none_iff.1 (hnone name))

/-- Time that passes keeps the schedule. -/
theorem Scheduled.passes {event : SweptCache.Event} (h : s.Scheduled)
    (hevent : (∃ duration, event = .advance duration) ∨ ∃ duration, event = .jump duration)
    (hunused : 0 < s.settings.unusedExpiry)
    (hclock : ({ s with cache := s.cache.happen event } : Store).Clocked) :
    ({ s with cache := s.cache.happen event } : Store).Scheduled := by
  have hwhole : event.Whole := by rcases hevent with ⟨_, rfl⟩ | ⟨_, rfl⟩ <;> trivial
  have hallows : s.cache.Allows event := by rcases hevent with ⟨_, rfl⟩ | ⟨_, rfl⟩ <;> trivial
  constructor
  · intro hstarted
    obtain ⟨hpunctual, hsettled⟩ := h.running hstarted
    have hlegal : s.cache.Legal [event] := ⟨hallows, trivial⟩
    exact ⟨hpunctual.follow hunused hlegal hclock, hsettled.happen hwhole⟩
  · intro hstarted
    obtain ⟨hsweeps, hkept, hnone⟩ := h.before hstarted
    rcases hevent with ⟨duration, rfl⟩ | ⟨duration, rfl⟩
    · have hrun := SweptCache.runDue_of_sweeps_eq_nil hsweeps (s.cache.now + duration)
      simp only [SweptCache.happen, SweptCache.advance, SweptCache.advanceTo, hrun]
      exact ⟨hsweeps, hkept, hnone⟩
    · have hrun := SweptCache.runDue_of_sweeps_eq_nil
        (c := { s.cache with now := s.cache.now + duration }) hsweeps (s.cache.now + duration)
      simp only [SweptCache.happen, SweptCache.jump, hrun]
      exact ⟨hsweeps, hkept, hnone⟩

/-! ### After any deeds -/

/-- What holds of a store after some deeds. -/
structure Followed (s : Store) (deeds : List Deed) (t : Store) : Prop where
  sound : t.Sound
  free : ∀ j, deeds.length ≤ j → t.calls.find? j = none
  settings : t.settings = s.settings
  scheduled : t.Clocked → t.Scheduled
  used : ∀ name time, t.used? name = some time → s.UsedAt deeds name time

/-- A call that is made and has ended has marked its name as is known. -/
theorem Followed.marks (h : s.Followed deeds t) {operation : Operation} {steps : Nat}
    {answers : Nat → Stage → Reply}
    (hended : (Deed.call name operation steps answers).Ends deeds.length t) :
    ∃ outcome, (t.deed deeds.length (.call name operation steps answers)).outcome? deeds.length =
        some outcome ∧
      t.Marks (t.deed deeds.length (.call name operation steps answers))
        ⟨name, operation, .finished outcome⟩ ∧
      (t.deed deeds.length (.call name operation steps answers)).Sound ∧
      ∀ j, deeds.length + 1 ≤ j →
        (t.deed deeds.length (.call name operation steps answers)).calls.find? j = none := by
  have hfresh := h.free _ (Nat.le_refl _)
  have hcall : (t.call deeds.length name operation).calls.find? deeds.length =
      some ⟨name, operation, .start⟩ := by
    simp [Store.call]
  have hrun : ∃ stage,
      (t.deed deeds.length (.call name operation steps answers)).calls.find? deeds.length =
        some ⟨name, operation, stage⟩ ∧
      t.Marks (t.deed deeds.length (.call name operation steps answers)) ⟨name, operation, stage⟩ ∧
      (t.deed deeds.length (.call name operation steps answers)).Sound ∧
      ∀ j, j ≠ deeds.length →
        (t.deed deeds.length (.call name operation steps answers)).calls.find? j =
          (t.call deeds.length name operation).calls.find? j :=
    (marks_call t deeds.length name operation).runFor (h.sound.newCall hfresh name operation) hcall
  obtain ⟨stage, hfound, hmarks, hsound, hothers⟩ := hrun
  obtain ⟨outcome, houtcome⟩ := Option.ne_none_iff_exists'.1 hended
  obtain ⟨_, hfound', hover⟩ := outcome?_eq_some_iff.1 houtcome
  obtain rfl := Option.some.inj (hfound.symm.trans hfound')
  obtain rfl : stage = .finished outcome := hover
  refine ⟨outcome, houtcome, hmarks, hsound, fun j hj => ?_⟩
  refine (hothers j (Nat.ne_of_gt hj)).trans ?_
  have hother : (t.call deeds.length name operation).calls.find? j = t.calls.find? j := by
    simp [Store.call, Nat.ne_of_gt hj]
  rw [hother]
  exact h.free j (Nat.le_of_succ_le hj)

/-- **One more deed.** -/
theorem Followed.concat (h : s.Followed deeds t) (ht : s.deedAll 0 deeds = t)
    (hexpiry : s.settings.expiry = 0) (hunused : 0 < s.settings.unusedExpiry)
    (hended : d.Ends deeds.length t) : s.Followed (deeds ++ [d]) (t.deed deeds.length d) := by
  -- time that passes stamps no entry
  have hpasses {event : SweptCache.Event}
      (hevent : (∃ duration, event = .advance duration) ∨ ∃ duration, event = .jump duration) :
      s.Followed (deeds ++ [d]) { t with cache := t.cache.happen event } := by
    have hfades : t.Fades { t with cache := t.cache.happen event } := by
      rcases hevent with ⟨duration, rfl⟩ | ⟨duration, rfl⟩
      · exact ⟨rfl, rfl, rfl, rfl, rfl, t.cache.fades_advance duration⟩
      · exact ⟨rfl, rfl, rfl, rfl, rfl, t.cache.fades_jump duration⟩
    refine ⟨h.sound.fades hfades, fun j hj => h.free j ?_, h.settings, fun hclock => ?_,
      fun name time htime => ?_⟩
    · rw [List.length_append] at hj
      omega
    · have hnow : t.cache.now ≤ (t.cache.happen event).now := by
        rw [SweptCache.now_happen]
        exact Nat.le_add_right _ _
      have hbefore : t.Clocked := Nat.lt_of_le_of_lt (by dsimp only; omega) hclock
      exact (h.scheduled hbefore).passes hevent (by rw [h.settings]; exact hunused) hclock
    · refine (h.used name time ?_).concat d
      obtain ⟨e, he, rfl⟩ := SweptCache.exists_held_of_stampBy? htime
      have hheld : t.cache.held? name = some e := by
        rcases hevent with ⟨duration, rfl⟩ | ⟨duration, rfl⟩
        · exact SweptCache.held?_of_runDue (t := t.cache.now + duration) he
        · exact SweptCache.held?_of_runDue
            (c := { t.cache with now := t.cache.now + duration }) he
      rw [used?, SweptCache.used?, SweptCache.stampBy?, hheld]
      rfl
  cases d with
  | advance duration => exact hpasses (.inl ⟨duration, rfl⟩)
  | jump duration => exact hpasses (.inr ⟨duration, rfl⟩)
  | call name operation steps answers =>
    obtain ⟨outcome, houtcome, hmarks, hsound, hfree⟩ := h.marks hended
    refine ⟨hsound, fun j hj => hfree j ?_, hmarks.tally.settings.trans h.settings,
      fun hclock => ?_,
      fun other time htime => ?_⟩
    · rw [List.length_append] at hj
      exact hj
    · have hbefore : t.Clocked := by
        have hlater := hclock
        rw [Clocked, hmarks.tally.now, hmarks.tally.settings] at hlater
        exact hlater
      exact hmarks.scheduled (h.scheduled hbefore) (by rw [h.settings]; exact hexpiry)
        (by rw [h.settings]; exact hunused) hbefore
    · rcases hmarks.uses htime with hold | ⟨rfl, rfl, huse⟩
      · exact (h.used other time hold).concat _
      · refine ⟨deeds, _, [], rfl, ?_, by rw [ht]⟩
        rw [ht]
        rcases huse with ⟨-, hdelete, answer, rfl⟩ | ⟨hcached, ⟨secret, rfl⟩, rfl⟩
        · cases operation with
          | create secret => exact .renews (.created houtcome)
          | get => exact .renews (.got houtcome)
          | delete => exact absurd rfl hdelete
        · exact .refused hcached houtcome

/-- **All deeds.** -/
theorem followed_deedAll (hs : s.Followed [] s) (hexpiry : s.settings.expiry = 0)
    (hunused : 0 < s.settings.unusedExpiry) (hends : s.EndsAll 0 deeds) :
    s.Followed deeds (s.deedAll 0 deeds) := by
  induction deeds using List.reverseRecOn with
  | nil => exact hs
  | append_singleton deeds d ih =>
    obtain ⟨hbefore, hended, -⟩ := endsAll_append.1 hends
    rw [deedAll_append]
    rw [Nat.zero_add] at hended ⊢
    exact (ih hbefore).concat rfl hexpiry hunused hended

theorem followed_new (settings : Settings) (disk : Disk) (now : Nat) :
    (new settings disk now).Followed [] (new settings disk now) where
  sound := sound_new settings disk now
  free _ _ := rfl
  settings := rfl
  scheduled _ := scheduled_new settings disk now
  used name time htime := by cases htime

/-- **A name that was not used lately is not cached, and is read again.** Where entries expire when
they are not used for a time, of at least two milliseconds, and not by their age, any calls are made
one after the other, and end in whatever way: if each use of a name was one and a half times the
expiry ago, but for the part of a millisecond that the clock shows, then the name is not cached, and
the next get of it reads the backend, and asks for one decryption if there is a master key and what
it reads is a ciphertext record, and for none otherwise. -/
theorem unused_not_cached {disk : Disk} {now : Nat} (hexpiry : settings.expiry = 0)
    (hunused : 2 * Sweep.minPeriod ≤ settings.unusedExpiry)
    (hends : (new settings disk now).EndsAll 0 deeds)
    (ht : (new settings disk now).deedAll 0 deeds = t)
    (hidle : ∀ time, (new settings disk now).UsedAt deeds name time →
      2 * time + 3 * settings.unusedExpiry + 2 * (t.cache.now % Time.millisecond) ≤
        2 * t.cache.now)
    (hclock : t.cache.now + settings.unusedExpiry / 2 + Sweep.tolerance < Time.limit) :
    t.cached? name = none ∧
      ∀ steps answers, KeyName.Valid name →
        (t.deed deeds.length (.call name .get steps answers)).outcome? deeds.length ≠ none →
        ∃ left, Passes answers deeds.length steps (t.call deeds.length name .get) (.work .read)
            (left + 1) ∧
          (t.Fetches name (answers left (.work .read)).device →
            (t.deed deeds.length (.call name .get steps answers)).decryptions =
              t.decryptions + 1) ∧
          (¬t.Fetches name (answers left (.work .read)).device →
            (t.deed deeds.length (.call name .get steps answers)).decryptions =
              t.decryptions) := by
  have hpos : 0 < settings.unusedExpiry := Nat.lt_of_lt_of_le (by decide) hunused
  have hall := followed_deedAll (followed_new settings disk now) hexpiry hpos hends
  rw [ht] at hall
  have hsettings : t.settings = settings := hall.settings
  have hhalf : Sweep.Policy.unused.period settings.unusedExpiry = settings.unusedExpiry / 2 :=
    Nat.max_eq_left (by omega)
  have hmiss : t.cached? name = none := by
    by_contra hcached
    obtain ⟨held, hheld⟩ := Option.ne_none_iff_exists'.1 hcached
    obtain ⟨time, htime⟩ := exists_used? hheld
    have huse := hidle time (hall.used name time htime)
    have hscheduled := hall.scheduled (by rw [Clocked, hsettings, hhalf]; exact hclock)
    cases hstarted : t.started with
    | false => cases ((hscheduled.before hstarted).2.2 name).symm.trans htime
    | true =>
      obtain ⟨hpunctual, hsettled⟩ := hscheduled.running hstarted
      rw [hsettings] at hpunctual
      obtain ⟨e, he, rfl⟩ := SweptCache.exists_held_of_stampBy? htime
      have hyoung :=
        (hpunctual.bounds hpos hsettled (fun _ h => by cases h) name e he).2 rfl hunused
      rw [Sweep.Policy.age_eq] at hyoung
      omega
  exact ⟨hmiss, fun steps answers hvalid hended =>
    exists_read_of_miss hall.sound (hall.free _ (Nat.le_refl _)) hvalid hmiss hended⟩

end

namespace Sample

/-- The settings of a store in memory whose entries expire when they are not used for a second. -/
def idling : Settings := ⟨.memory, 0, Time.second, some "k", .own⟩

/-- A call that runs to its end. -/
def made (operation : Operation) : Deed := .call "a" operation 20 fun _ _ => reply 0

/-- A key is created, and 0.9 seconds later somebody is refused to create it. -/
def refusedAgain : List Deed :=
  [made (.create secret), .advance (900 * Time.millisecond), made (.create secret)]

/-- What occurs among these deeds and a wait occurs in one of the two calls. -/
theorem time_of_occursAt {kind : Nat → Store → Deed → Prop} {duration time : Nat}
    (hadvance : ∀ n t duration, ¬kind n t (.advance duration))
    (h : (new idling disk 0).OccursAt kind (refusedAgain ++ [.advance duration]) time) :
    time = 0 ∨ time = 900 * Time.millisecond ∧
      kind 2 ((new idling disk 0).deedAll 0 (refusedAgain.take 2)) (made (.create secret)) := by
  obtain ⟨earlier, d, later, hdeeds, hkind, rfl⟩ := h
  rcases earlier with _ | ⟨first, _ | ⟨second, _ | ⟨third, _ | ⟨fourth, earlier⟩⟩⟩⟩ <;>
    simp only [refusedAgain, List.cons_append, List.nil_append, List.cons.injEq,
      List.nil_eq, List.append_eq_nil_iff, reduceCtorEq, and_false] at hdeeds
  · exact .inl rfl
  · obtain ⟨rfl, rfl, -⟩ := hdeeds
    exact absurd hkind (hadvance _ _ _)
  · obtain ⟨rfl, rfl, rfl, -⟩ := hdeeds
    refine .inr ⟨by decide +kernel, hkind⟩
  · obtain ⟨rfl, rfl, rfl, rfl, -⟩ := hdeeds
    exact absurd hkind (hadvance _ _ _)

end Sample

/-- A name that is used for the last time by a refused call is not cached one and a half expiries
later, and is read again. -/
theorem unused_not_cached_refusedAgain :
    let s := new Sample.idling Sample.disk 0
    let deeds := Sample.refusedAgain ++ [.advance (1500 * Time.millisecond)]
    let t := s.deedAll 0 deeds
    s.EndsAll 0 deeds ∧ t.cached? "a" = none ∧
      (t.deed 4 (Sample.made .get)).decryptions = t.decryptions + 1 := by
  intro s deeds t
  have hends : s.EndsAll 0 deeds := by decide +kernel
  have hnow : t.cache.now = 2400 * Time.millisecond := by decide +kernel
  have hidle (time : Nat) (hused : s.UsedAt deeds "a" time) :
      2 * time + 3 * Sample.idling.unusedExpiry + 2 * (t.cache.now % Time.millisecond) ≤
        2 * t.cache.now := by
    rw [hnow]
    have hadvance (n : Nat) (u : Store) (duration : Nat) : ¬u.Uses n "a" (.advance duration) := by
      rintro ⟨⟨⟩⟩
    rcases Sample.time_of_occursAt hadvance hused with rfl | ⟨rfl, -⟩ <;> decide
  obtain ⟨hmiss, hnext⟩ := unused_not_cached rfl (by decide) hends rfl hidle
    (by rw [hnow]; decide +kernel)
  obtain ⟨left, -, hone, -⟩ :=
    hnext 20 (fun _ _ => Sample.reply 0) (by decide) (by decide +kernel)
  have hfetches : t.Fetches "a" (Sample.reply 0).device :=
    ⟨by decide +kernel, Sample.ciphertext.toRecord, Sample.ciphertext, by decide +kernel,
      by decide +kernel⟩
  exact ⟨hends, hmiss, hone hfetches⟩

/-- **A refused call keeps a name in the cache** that nobody has read or created for one and a half
times the expiry. -/
theorem cached_though_unread :
    let s := new Sample.idling Sample.disk 0
    let deeds := Sample.refusedAgain ++ [.advance (900 * Time.millisecond)]
    let t := s.deedAll 0 deeds
    s.EndsAll 0 deeds ∧
      (∀ time, s.OccursAt (fun n u d => u.Renews n "a" d) deeds time →
        2 * time + 3 * Sample.idling.unusedExpiry + 2 * (t.cache.now % Time.millisecond) ≤
          2 * t.cache.now) ∧
      t.cached? "a" = some Sample.secret := by
  intro s deeds t
  have hnow : t.cache.now = 1800 * Time.millisecond := by decide +kernel
  refine ⟨by decide +kernel, fun time hgiven => ?_, by decide +kernel⟩
  rw [hnow]
  have hadvance (n : Nat) (u : Store) (duration : Nat) : ¬u.Renews n "a" (.advance duration) := by
    rintro ⟨⟩
  rcases Sample.time_of_occursAt hadvance hgiven with rfl | ⟨-, hrenews⟩
  · decide
  · -- the second call is refused
    have hrefused : ((s.deedAll 0 (Sample.refusedAgain.take 2)).deed 2
        (Sample.made (.create Sample.secret))).outcome? 2 = some (.error .keyExists) := by
      decide +kernel
    cases hrenews with
    | created hcreated => cases hrefused.symm.trans hcreated

end Keyring.Store
