import Keyring.Proofs.Cache.Ticks
import Keyring.Proofs.Store.Ledger
import Keyring.Store.Open

/-!
# The life of the sweeps of a store

The first call with a valid name starts the sweeps that the configuration asks for. From then on
each of them ticks, removes entries and waits for its next deadline, until it ticks and finds the
store gone, or until the clock cannot tell an instant that it needs.

- `Config.sweepKinds`: the sweeps that a configuration asks for;
- `Moment`, `Store.after`, `Store.through`: what happens to a store, and to its sweeps when it is
  gone;
- `Starts`, `Lives`: the moment that starts the sweeps, and what holds at every moment;
- `sweeps_live_with_store`: which sweeps there are, when they fail and when they end;
- `sweep_fails_at_start`: a configuration whose sweep never runs.
-/

namespace Keyring

/-- The sweeps that a configuration asks for, one for each value that is not zero: policy, expiry
and period. -/
def Config.sweepKinds (c : Config) : List (Sweep.Policy × Nat × Nat) :=
  [(Sweep.Policy.created, c.expirySeconds), (Sweep.Policy.unused, c.unusedExpirySeconds)].filterMap
    fun (policy, seconds) =>
      if seconds = 0 then none
      else some (policy, seconds.toNat * Time.second, policy.period (seconds.toNat * Time.second))

namespace Store

/-- The sweeps that a store starts at a time. -/
def Settings.sweeps (settings : Settings) (now : Nat) : List Sweep :=
  (Sweep.start? .created now settings.expiry).toList ++
    (Sweep.start? .unused now settings.unusedExpiry).toList

/-- What may happen to a store and to its sweeps. -/
inductive Moment where
  /-- Somebody makes a call, under a number that is not in use, unless the store is gone. -/
  | call (id : Nat) (name : String) (operation : Operation)
  /-- A call makes its next step. -/
  | step (id : Nat) (reply : Reply)
  /-- Time passes. -/
  | wait (duration : Nat)
  /-- A sweep ticks, unless it is not yet its time. -/
  | tick (i : Nat)
  /-- A sweep removes what was too old when it ticked. -/
  | finish (i : Nat)
  /-- The store goes, with all its calls. -/
  | drop

/-- Let go of a store. Its sweeps are left behind. -/
def drop (s : Store) : Store := { s with cache := s.cache.drop, calls := .empty, locks := .empty }

/-- The store after a moment. -/
def after (s : Store) : Moment → Store
  | .call id name operation =>
    if s.cache.dropped || (s.calls.find? id).isSome then s else s.call id name operation
  | .step id reply => s.step id reply
  | .wait duration => s.move (.wait duration)
  | .tick i => { s with cache := s.cache.tick i }
  | .finish i => s.move (.finishSweep i)
  | .drop => s.drop

/-- The store after some moments. -/
def through (s : Store) (moments : List Moment) : Store := moments.foldl after s

/-- The moment is the first step of a call with a valid name. -/
def Starts (s : Store) (moment : Moment) : Prop :=
  ∃ id reply call, moment = .step id reply ∧ s.calls.find? id = some call ∧ call.stage = .start ∧
    KeyName.Valid call.name

/-- What holds at every moment. -/
structure Lives (settings : Settings) (s : Store) : Prop where
  sound : s.Sound
  settings_eq : s.settings = settings
  /-- The sweeps are those that were to be started, once they were. -/
  kinds : s.cache.sweeps.map Sweep.kind =
    if s.started then (settings.sweeps 0).map Sweep.kind else []
  inReach : ∀ sweep ∈ s.cache.sweeps, sweep.InReach s.cache.now
  /-- No sweep ends while the store exists. -/
  running : s.cache.dropped = false → ∀ sweep ∈ s.cache.sweeps, sweep.phase ≠ .ended

variable {settings : Settings} {c : Config} {s t : Store} {disk : Disk} {home : Option String}
  {keys : MasterKeys} {id i now : Nat} {name : String} {reply : Reply} {call : Call}
  {moment : Moment}

/-! ### The start -/

/-- A sweep that is started is of the kind that was asked for, whatever the clock says. -/
theorem map_kind_start? (policy : Sweep.Policy) (now expiry : Nat) :
    (Sweep.start? policy now expiry).map Sweep.kind =
      if expiry = 0 then none else some (policy, expiry, policy.period expiry) := by
  unfold Sweep.start?
  split
  case isTrue h => rw [if_neg (Nat.ne_of_gt h)]; rfl
  case isFalse h => rw [if_pos (Nat.eq_zero_of_not_pos h)]; rfl

/-- A store asks for the sweeps of its configuration. -/
theorem map_kind_sweeps (c : Config) (home : Option String) (now : Nat) :
    ((c.settings home).sweeps now).map Sweep.kind = c.sweepKinds := by
  have hzero (seconds : UInt64) : seconds.toNat * Time.second = 0 ↔ seconds = 0 := by
    rw [Nat.mul_eq_zero, or_iff_left (by decide : Time.second ≠ 0), ← UInt64.toNat_inj]
    rfl
  rw [Settings.sweeps, List.map_append, ← Option.toList_map, ← Option.toList_map, map_kind_start?,
    map_kind_start?]
  simp only [Config.settings, Config.sweepKinds, hzero, List.filterMap_cons, List.filterMap_nil]
  split <;> split <;> rfl

/-- The first deadline of a sweep is a period after its start; it has failed if the clock cannot
tell that. -/
theorem phase_of_mem_sweeps {sweep : Sweep} (h : sweep ∈ settings.sweeps now) :
    (sweep.phase = .waiting (now + sweep.period) ∧ now + sweep.period < Time.limit) ∨
      (sweep.phase = .failed ∧ Time.limit ≤ now + sweep.period) := by
  have hstart : ∃ policy expiry, Sweep.start? policy now expiry = some sweep := by
    rcases List.mem_append.1 h with h | h
    · exact ⟨_, _, Option.mem_toList.1 h⟩
    · exact ⟨_, _, Option.mem_toList.1 h⟩
  obtain ⟨policy, expiry, hstart⟩ := hstart
  unfold Sweep.start? at hstart
  split at hstart
  case isFalse => cases hstart
  case isTrue =>
    obtain rfl := Option.some.inj hstart
    rcases Nat.lt_or_ge (now + policy.period expiry) Time.limit with hroom | hfull
    · exact .inl ⟨by rw [Time.after?_of_lt hroom]; rfl, hroom⟩
    · exact .inr ⟨by rw [Time.after?_eq_none_iff.2 hfull]; rfl, hfull⟩

theorem startSweep_eq (c : SweptCache) (policy : Sweep.Policy) (expiry : Nat) :
    (c.startSweep policy expiry).2 =
      { c with sweeps := c.sweeps ++ (Sweep.start? policy c.now expiry).toList } := by
  unfold SweptCache.startSweep
  split
  case h_1 hnone => rw [hnone, Option.toList_none, List.append_nil]
  case h_2 sweep hsome => rw [hsome, Option.toList_some]

/-- A step of a call starts the sweeps if it checks a valid name and they were not started, and
leaves them as they are otherwise. -/
theorem cacheAfter_cases (s : Store) (name : String) (stage : Stage) :
    ((s.started = false ∧ stage = .start ∧ KeyName.Valid name) ∧
      stage.startedAfter s name = true ∧ stage.cacheAfter s name =
        { s.cache with sweeps := s.cache.sweeps ++ s.settings.sweeps s.cache.now }) ∨
    (¬(s.started = false ∧ stage = .start ∧ KeyName.Valid name) ∧
      stage.startedAfter s name = s.started ∧ (stage.cacheAfter s name).sweeps = s.cache.sweeps ∧
        (stage.cacheAfter s name).now = s.cache.now ∧
          (stage.cacheAfter s name).dropped = s.cache.dropped) := by
  cases stage with
  | start =>
    by_cases hvalid : KeyName.Valid name
    · cases hstarted : s.started with
      | false =>
        have hopened : s.opened name = s.startSweeps := if_pos hvalid
        refine .inl ⟨⟨rfl, rfl, hvalid⟩, ?_, ?_⟩
        · rw [Stage.startedAfter, hopened, startSweeps, hstarted]
          rfl
        · rw [Stage.cacheAfter, hopened, startSweeps, hstarted, if_neg Bool.false_ne_true]
          dsimp only
          rw [startSweep_eq, startSweep_eq, Settings.sweeps, ← List.append_assoc]
      | true =>
        have hopened : s.opened name = s := by
          rw [opened, if_pos hvalid, startSweeps, hstarted, if_pos rfl]
        refine .inr ⟨by simp, ?_⟩
        rw [Stage.startedAfter, Stage.cacheAfter, hopened]
        exact ⟨hstarted, rfl, rfl, rfl⟩
    · refine .inr ⟨by simp [hvalid], ?_⟩
      rw [Stage.startedAfter, Stage.cacheAfter, opened, if_neg hvalid]
      exact ⟨rfl, rfl, rfl, rfl⟩
  | work w =>
    refine .inr ⟨by simp, ?_⟩
    cases w <;> exact ⟨rfl, rfl, rfl, rfl⟩
  | _ => exact .inr ⟨by simp, rfl, rfl, rfl, rfl⟩

/-- The cache and the settings after a step of a call. -/
theorem cache_step (hsound : s.Sound) (hcall : s.calls.find? id = some call) (reply : Reply) :
    (s.step id reply).cache = call.stage.cacheAfter s call.name ∧
      (s.step id reply).started = call.stage.startedAfter s call.name ∧
        (s.step id reply).settings = s.settings := by
  have hfits := hsound.fits id call hcall
  have hspends := spends_perform id reply hfits
  obtain ⟨⟨change, hadv⟩, -⟩ := exists_advances_perform hcall hfits reply
  refine ⟨?_, ?_, hadv.settings⟩
  · rw [Store.step, hcall]
    exact hspends.cache
  · rw [Store.step, hcall]
    exact hspends.started

/-! ### Each moment -/

theorem lives_new (settings : Settings) (disk : Disk) (now : Nat) :
    (new settings disk now).Lives settings where
  sound := sound_new settings disk now
  settings_eq := rfl
  kinds := rfl
  inReach _ h := absurd h List.not_mem_nil
  running _ _ h := absurd h List.not_mem_nil

/-- Before the sweeps are started there are none. -/
theorem Lives.sweeps_eq_nil (h : s.Lives settings) (hnot : s.started = false) :
    s.cache.sweeps = [] := by
  have hkinds := h.kinds
  rw [hnot, if_neg Bool.false_ne_true] at hkinds
  exact List.map_eq_nil_iff.1 hkinds

/-- One of the sweeps goes on. -/
theorem map_kind_set {sweeps : List Sweep} {sweep next : Sweep} (h : sweeps[i]? = some sweep)
    (hkind : next.kind = sweep.kind) :
    (sweeps.set i next).map Sweep.kind = sweeps.map Sweep.kind := by
  rw [List.map_set, hkind]
  obtain ⟨hlt, rfl⟩ := List.getElem?_eq_some_iff.1 h
  rw [← List.getElem_map Sweep.kind (h := by simpa using hlt), List.set_getElem_self]

/-- A sweep that goes on keeps what holds at every moment. -/
theorem Lives.set (h : s.Lives settings) {sweep next : Sweep} {cache : Cache}
    (hsweep : s.cache.sweeps[i]? = some sweep) (hkind : next.kind = sweep.kind)
    (hreach : next.InReach s.cache.now)
    (hrunning : s.cache.dropped = false → next.phase ≠ .ended)
    (hfades : s.Fades
      { s with cache := { s.cache with sweeps := s.cache.sweeps.set i next, cache } }) :
    Lives settings
      { s with cache := { s.cache with sweeps := s.cache.sweeps.set i next, cache } } where
  sound := h.sound.fades hfades
  settings_eq := h.settings_eq
  kinds := (map_kind_set hsweep hkind).trans h.kinds
  inReach other hother := by
    rcases List.mem_or_eq_of_mem_set hother with hold | rfl
    · exact h.inReach other hold
    · exact hreach
  running hkept other hother := by
    rcases List.mem_or_eq_of_mem_set hother with hold | rfl
    · exact h.running hkept other hold
    · exact hrunning hkept

theorem Lives.tick (h : s.Lives settings) (i : Nat) :
    Lives settings { s with cache := s.cache.tick i } := by
  rcases s.cache.tick_cases i with hsame | ⟨sweep, deadline, hsweep, hphase, hdue, htick⟩
  · rw [hsame]
    exact h
  rw [htick]
  refine h.set hsweep (sweep.kind_begin _ _) (Sweep.inReach_begin hphase hdue _) (fun hkept => ?_)
    ⟨rfl, rfl, rfl, rfl, rfl, fun _ _ hcached => hcached⟩
  -- a sweep that ticks while the store exists fails or goes on
  have hgone : s.cache.isGone = false := by rw [SweptCache.isGone, hkept, Bool.false_and]
  rw [Sweep.phase_begin hphase, hgone]
  cases sweep.next? s.cache.now deadline <;> simp [Sweep.Phase.begun]

theorem Lives.finish (h : s.Lives settings) (i : Nat) :
    Lives settings (s.move (.finishSweep i)) := by
  have hfades : s.Fades (s.move (.finishSweep i)) :=
    ⟨rfl, rfl, rfl, rfl, rfl, fun _ _ => cached?_finishSweep⟩
  cases hsweep : s.cache.sweeps[i]? with
  | none =>
    have hsame : s.cache.finishSweep i = s.cache := by rw [SweptCache.finishSweep, hsweep]
    rw [move, hsame]
    exact h
  | some sweep =>
    have hmem := List.mem_of_getElem? hsweep
    have hcache : s.cache.finishSweep i = { s.cache with
        sweeps := s.cache.sweeps.set i (sweep.finish s.cache.cache).1
        cache := (sweep.finish s.cache.cache).2 } := by rw [SweptCache.finishSweep, hsweep]
    rw [move, hcache] at hfades ⊢
    refine h.set hsweep (sweep.kind_finish _) ((h.inReach sweep hmem).finish _)
      (fun hkept => ?_) hfades
    have hrunning := h.running hkept sweep hmem
    rw [Sweep.phase_finish]
    split <;> simp_all

/-- What holds at one moment holds at the next. -/
theorem Lives.after (h : s.Lives settings) (moment : Moment) : (s.after moment).Lives settings := by
  cases moment with
  | call id name operation =>
    simp only [Store.after]
    split
    case isTrue => exact h
    case isFalse hfree =>
      have hfresh : s.calls.find? id = none := by
        simp only [Bool.or_eq_true, Option.isSome_iff_ne_none, not_or, not_not] at hfree
        exact hfree.2
      exact ⟨h.sound.newCall hfresh name operation, h.settings_eq, h.kinds, h.inReach, h.running⟩
  | step id reply =>
    cases hcall : s.calls.find? id with
    | none =>
      have hsame : s.after (.step id reply) = s := by rw [Store.after, step, hcall]
      rw [hsame]
      exact h
    | some call =>
      obtain ⟨hcache, hstarted, hsettings⟩ := cache_step h.sound hcall reply
      have hsound := h.sound.step hcall reply
      show Lives settings (s.step id reply)
      rcases cacheAfter_cases s call.name call.stage with
        ⟨⟨hnot, -⟩, hnow, hafter⟩ | ⟨-, hnow, hsweeps, hclock, hdropped⟩
      · -- there are no sweeps yet
        rw [h.sweeps_eq_nil hnot, List.nil_append, h.settings_eq] at hafter
        refine ⟨hsound, hsettings.trans h.settings_eq, ?_, ?_, ?_⟩
        · rw [hcache, hstarted, hnow, hafter, if_pos rfl]
          simp only [Settings.sweeps, List.map_append, ← Option.toList_map, map_kind_start?]
        · rw [hcache, hafter]
          intro sweep hsweep
          rcases List.mem_append.1 hsweep with hsweep | hsweep
          · exact Sweep.inReach_start? (Option.mem_toList.1 hsweep)
          · exact Sweep.inReach_start? (Option.mem_toList.1 hsweep)
        · rw [hcache, hafter]
          intro _ sweep hsweep
          rcases phase_of_mem_sweeps hsweep with ⟨hphase, -⟩ | ⟨hphase, -⟩
          · simp [hphase]
          · simp [hphase]
      · refine ⟨hsound, hsettings.trans h.settings_eq, ?_, ?_, ?_⟩
        · rw [hcache, hstarted, hnow, hsweeps]
          exact h.kinds
        · rw [hcache, hsweeps, hclock]
          exact h.inReach
        · rw [hcache, hsweeps, hdropped]
          exact h.running
  | wait duration =>
    have hfades : s.Fades (s.move (.wait duration)) := ⟨rfl, rfl, rfl, rfl, rfl, fun _ _ hc => hc⟩
    exact ⟨h.sound.fades hfades, h.settings_eq, h.kinds,
      fun sweep hsweep => (h.inReach sweep hsweep).mono (Nat.le_add_right _ _), h.running⟩
  | tick i => exact h.tick i
  | finish i => exact h.finish i
  | drop =>
    exact ⟨⟨NameLocks.agrees_empty, fun id call hcall => by simp [Store.after, drop] at hcall,
      fun id call hcall => by simp [Store.after, drop] at hcall⟩, h.settings_eq, h.kinds, h.inReach,
      fun hkept => by simp [Store.after, drop, SweptCache.drop] at hkept⟩

theorem Lives.through (h : s.Lives settings) (moments : List Moment) :
    (s.through moments).Lives settings := by
  induction moments generalizing s with
  | nil => exact h
  | cons moment moments ih => exact ih (h.after moment)

/-- A sweep stays what it is, but for its own ticks and removals. -/
theorem Lives.sweep_after (h : s.Lives settings) {sweep : Sweep}
    (hsweep : s.cache.sweeps[i]? = some sweep) (moment : Moment) :
    ∃ next, (s.after moment).cache.sweeps[i]? = some next ∧ next.kind = sweep.kind ∧
      (next = sweep ∨
        (moment = .tick i ∧ ∃ deadline, sweep.phase = .waiting deadline ∧ deadline ≤ s.cache.now ∧
          next = sweep.begin s.cache.now s.cache.isGone) ∨
        (moment = .finish i ∧ next = (sweep.finish s.cache.cache).1)) := by
  cases moment with
  | call id name operation =>
    refine ⟨sweep, ?_, rfl, .inl rfl⟩
    simp only [Store.after]
    split <;> exact hsweep
  | step id reply =>
    refine ⟨sweep, ?_, rfl, .inl rfl⟩
    cases hcall : s.calls.find? id with
    | none =>
      have hsame : s.after (.step id reply) = s := by rw [Store.after, step, hcall]
      rw [hsame]
      exact hsweep
    | some call =>
      show (s.step id reply).cache.sweeps[i]? = some sweep
      rw [(cache_step h.sound hcall reply).1]
      rcases cacheAfter_cases s call.name call.stage with ⟨⟨hnot, -⟩, -⟩ | ⟨-, -, hsweeps, -⟩
      · rw [h.sweeps_eq_nil hnot] at hsweep
        cases hsweep
      · rw [hsweeps]
        exact hsweep
  | wait duration | drop => exact ⟨sweep, hsweep, rfl, .inl rfl⟩
  | tick j =>
    rcases s.cache.tick_cases j with hsame | ⟨other, deadline, hother, hphase, hdue, htick⟩
    · exact ⟨sweep, by rw [Store.after, hsame]; exact hsweep, rfl, .inl rfl⟩
    · rw [Store.after, htick]
      by_cases hij : j = i
      · subst hij
        obtain rfl := Option.some.inj (hsweep.symm.trans hother)
        exact ⟨_, List.getElem?_set_self (List.getElem?_eq_some_iff.1 hsweep).1,
          sweep.kind_begin _ _, .inr (.inl ⟨rfl, deadline, hphase, hdue, rfl⟩)⟩
      · exact ⟨sweep, (List.getElem?_set_ne hij).trans hsweep, rfl, .inl rfl⟩
  | finish j =>
    show ∃ next, (s.cache.finishSweep j).sweeps[i]? = some next ∧ _
    unfold SweptCache.finishSweep
    split
    case h_1 => exact ⟨sweep, hsweep, rfl, .inl rfl⟩
    case h_2 other hother =>
      by_cases hij : j = i
      · subst hij
        obtain rfl := Option.some.inj (hsweep.symm.trans hother)
        exact ⟨_, List.getElem?_set_self (List.getElem?_eq_some_iff.1 hsweep).1,
          sweep.kind_finish _, .inr (.inr ⟨rfl, rfl⟩)⟩
      · exact ⟨sweep, (List.getElem?_set_ne hij).trans hsweep, rfl, .inl rfl⟩

/-- The sweeps are started by the first moment at which a call checks a valid name, and by no
other. -/
theorem Lives.started_after (h : s.Lives settings) (moment : Moment) :
    ((s.after moment).started = true ↔ s.started = true ∨ s.Starts moment) ∧
      (s.started = false → s.Starts moment →
        (s.after moment).cache.sweeps = settings.sweeps s.cache.now) := by
  have hother (hsame : (s.after moment).started = s.started)
      (hno : ∀ id reply, moment ≠ .step id reply) :
      ((s.after moment).started = true ↔ s.started = true ∨ s.Starts moment) ∧
        (s.started = false → s.Starts moment →
          (s.after moment).cache.sweeps = settings.sweeps s.cache.now) := by
    have hnot : ¬s.Starts moment := by
      rintro ⟨id, reply, -, rfl, -⟩
      exact hno id reply rfl
    exact ⟨by simp [hsame, hnot], fun _ hstarts => absurd hstarts hnot⟩
  cases moment with
  | step id reply =>
    cases hcall : s.calls.find? id with
    | none =>
      have hsame : s.after (.step id reply) = s := by rw [Store.after, step, hcall]
      have hnot : ¬s.Starts (.step id reply) := by
        rintro ⟨id', reply', call, hmoment, hfound, -⟩
        cases hmoment
        cases hcall.symm.trans hfound
      rw [hsame]
      exact ⟨by simp [hnot], fun _ hstarts => absurd hstarts hnot⟩
    | some call =>
      have hstarts : s.Starts (.step id reply) ↔ call.stage = .start ∧ KeyName.Valid call.name := by
        constructor
        · rintro ⟨id', reply', call', hmoment, hfound, hcheck⟩
          cases hmoment
          obtain rfl := Option.some.inj (hcall.symm.trans hfound)
          exact hcheck
        · exact fun hcheck => ⟨id, reply, call, rfl, hcall, hcheck⟩
      obtain ⟨hcache, hstarted, -⟩ := cache_step h.sound hcall reply
      show ((s.step id reply).started = true ↔ _) ∧
        (_ → _ → (s.step id reply).cache.sweeps = _)
      rw [hcache, hstarted, hstarts]
      rcases cacheAfter_cases s call.name call.stage with
        ⟨⟨hnot, hcheck⟩, hnow, hafter⟩ | ⟨hno, hnow, -⟩
      · refine ⟨⟨fun _ => .inr hcheck, fun _ => hnow⟩, fun _ _ => ?_⟩
        rw [hafter, h.sweeps_eq_nil hnot, h.settings_eq, List.nil_append]
      · refine ⟨?_, fun hnot hcheck => absurd ⟨hnot, hcheck⟩ hno⟩
        rw [hnow]
        cases hs : s.started <;> simp_all
  | call id name operation =>
    refine hother ?_ (by simp)
    simp only [Store.after]
    split <;> rfl
  | wait _ | tick _ | finish _ | drop => exact hother rfl (by simp)

/-- A sweep that is over stays so. -/
theorem Lives.sweep_of_isOver (h : s.Lives settings) {sweep : Sweep}
    (hsweep : s.cache.sweeps[i]? = some sweep) (hover : sweep.isOver = true) (moment : Moment) :
    (s.after moment).cache.sweeps[i]? = some sweep := by
  obtain ⟨next, hnext, -, rfl | ⟨-, deadline, hphase, -⟩ | ⟨-, rfl⟩⟩ := h.sweep_after hsweep moment
  · exact hnext
  · rw [Sweep.isOver, hphase] at hover
    cases hover
  · have hsame : (sweep.finish s.cache.cache).1 = sweep := by
      unfold Sweep.finish
      split
      case h_1 hclearing =>
        rw [Sweep.isOver, hclearing] at hover
        cases hover
      case h_2 => rfl
    rw [hnext, hsame]

/-- What a sweep does when it ticks is decided by the sums that it needs and by who holds the
cache. -/
theorem sweep_after_tick {sweep : Sweep} {deadline : Nat}
    (hsweep : s.cache.sweeps[i]? = some sweep) (hphase : sweep.phase = .waiting deadline)
    (hdue : deadline ≤ s.cache.now) :
    ∃ next, (s.after (.tick i)).cache.sweeps[i]? = some next ∧
      (next.phase = .failed ↔ sweep.Overflows s.cache.now deadline) ∧
      (next.phase = .ended ↔
        ¬sweep.Overflows s.cache.now deadline ∧ s.cache.isGone = true) ∧
      (next.isClearing = true ↔
        ¬sweep.Overflows s.cache.now deadline ∧ s.cache.isGone = false) := by
  have hlt := (List.getElem?_eq_some_iff.1 hsweep).1
  refine ⟨sweep.begin s.cache.now s.cache.isGone, ?_, ?_⟩
  · rw [Store.after, SweptCache.tick_of_due hsweep hphase hdue]
    exact List.getElem?_set_self hlt
  · rw [Sweep.isClearing, Sweep.phase_begin hphase, ← Sweep.next?_eq_none_iff]
    cases sweep.next? s.cache.now deadline with
    | none => simp [Sweep.Phase.begun]
    | some next => cases s.cache.isGone <;> simp [Sweep.Phase.begun]

/-- **How long sweeps live.** A store is opened with any expiries, at any time, and anything happens
to it. The first call that checks a valid name starts one sweep for each expiry that is not zero,
and nothing else does. A sweep fails exactly if the clock cannot tell an instant that it needs, when
it is started or when it ticks, so not as long as the clock has room for another period and the
tolerance. While the store exists none ends; each waits for its deadline, ticks and removes entries,
which never fails. When the store is gone a sweep ends at the first tick at which no other sweep is
about to remove entries. -/
theorem sweeps_live_with_store (hopen : Store.open c disk home now = .ok (s, keys))
    (moments : List Moment) :
    let t := s.through moments
    (t.cache.sweeps.map Sweep.kind = if t.started then c.sweepKinds else []) ∧
    (∀ moment, ((t.after moment).started = true ↔ t.started = true ∨ t.Starts moment) ∧
      (t.started = false → t.Starts moment → ∀ sweep ∈ (t.after moment).cache.sweeps,
        (sweep.phase = .waiting (t.cache.now + sweep.period) ∧
          t.cache.now + sweep.period < Time.limit) ∨
        (sweep.phase = .failed ∧ Time.limit ≤ t.cache.now + sweep.period))) ∧
    (∀ sweep ∈ t.cache.sweeps, sweep.phase = .failed →
      Time.limit ≤ t.cache.now + sweep.period + Sweep.tolerance) ∧
    (t.cache.dropped = false → ∀ sweep ∈ t.cache.sweeps, sweep.phase ≠ .ended) ∧
    (∀ i sweep, t.cache.sweeps[i]? = some sweep →
      (∀ moment, moment ≠ .tick i → moment ≠ .finish i →
        (t.after moment).cache.sweeps[i]? = some sweep) ∧
      (∀ deadline, sweep.phase = .waiting deadline → deadline ≤ t.cache.now →
        ∃ next, (t.after (.tick i)).cache.sweeps[i]? = some next ∧
          (next.phase = .failed ↔ sweep.Overflows t.cache.now deadline) ∧
          (next.phase = .ended ↔
            ¬sweep.Overflows t.cache.now deadline ∧ t.cache.isGone = true) ∧
          (next.isClearing = true ↔
            ¬sweep.Overflows t.cache.now deadline ∧ t.cache.isGone = false)) ∧
      (∀ clock deadline, sweep.phase = .clearing clock deadline →
        ∃ next, (t.after (.finish i)).cache.sweeps[i]? = some next ∧
          next.phase = .waiting deadline) ∧
      (sweep.isOver = true → ∀ moment, (t.after moment).cache.sweeps[i]? = some sweep)) := by
  intro t
  have hnew : s = new (c.settings home) disk now := by
    unfold Store.open at hopen
    split at hopen
    · cases hopen
    · exact (Prod.mk.inj (Except.ok.inj hopen)).1.symm
  have hlives : t.Lives (c.settings home) := by
    subst hnew
    exact (lives_new _ disk now).through moments
  refine ⟨?_, fun moment => ⟨(hlives.started_after moment).1, fun hnot hstarts sweep hsweep => ?_⟩,
    fun sweep hsweep hfailed => ?_, hlives.running,
    fun i sweep hsweep => ⟨fun moment hno hno' => ?_,
      fun deadline => sweep_after_tick hsweep, fun clock deadline hclearing => ?_,
      hlives.sweep_of_isOver hsweep⟩⟩
  · rw [hlives.kinds, map_kind_sweeps]
  · rw [(hlives.started_after moment).2 hnot hstarts] at hsweep
    exact phase_of_mem_sweeps hsweep
  · have hreach := hlives.inReach sweep hsweep
    rw [Sweep.InReach, hfailed] at hreach
    exact hreach
  · obtain ⟨next, hnext, -, rfl | ⟨htick, -⟩ | ⟨hfinish, -⟩⟩ := hlives.sweep_after hsweep moment
    · exact hnext
    · exact absurd htick hno
    · exact absurd hfinish hno'
  · have hlt := (List.getElem?_eq_some_iff.1 hsweep).1
    refine ⟨(sweep.finish t.cache.cache).1, ?_, by rw [Sweep.phase_finish, hclearing]⟩
    show (t.cache.finishSweep i).sweeps[i]? = _
    rw [SweptCache.finishSweep, hsweep]
    exact List.getElem?_set_self hlt

/-- A store with two sweeps goes before they tick, and the first of them ends at its first tick. -/
theorem sweeps_live_with_store_droppedEarly :
    let c :=
      { Config.standard with backend := .memory, expirySeconds := 10, unusedExpirySeconds := 3 }
    let reply : Reply :=
      { device := .accept 0, encrypted := .error (.other ""), decrypted := .error (.other "") }
    let t := (new (c.settings none) (Disk.empty [] 0) 7).through
      [.call 0 "a" .get, .step 0 reply, .drop, .wait (10 * Time.second)]
    t.cache.sweeps.map Sweep.kind = c.sweepKinds ∧ t.cache.sweeps.length = 2 ∧
      ∃ next, (t.after (.tick 0)).cache.sweeps[0]? = some next ∧ next.phase = .ended := by
  intro c reply t
  have hopen : Store.open c (Disk.empty [] 0) none 7 =
      .ok (new (c.settings none) (Disk.empty [] 0) 7, .empty) := rfl
  obtain ⟨hkinds, -, -, -, hsweeps⟩ := sweeps_live_with_store hopen
    [.call 0 "a" .get, .step 0 reply, .drop, .wait (10 * Time.second)]
  have hstarted : t.started = true := by decide +kernel
  have hlength : t.cache.sweeps.length = 2 := by decide +kernel
  obtain ⟨sweep, hsweep⟩ : ∃ sweep, t.cache.sweeps[0]? = some sweep :=
    ⟨t.cache.sweeps[0], List.getElem?_eq_getElem (by omega)⟩
  have hphase : t.cache.sweeps[0]?.map Sweep.phase = some (.waiting (7 + 10 * Time.second)) := by
    decide +kernel
  have hroom : t.cache.sweeps[0]?.map Sweep.period = some (10 * Time.second) := by decide +kernel
  rw [hsweep] at hphase hroom
  have hnow : t.cache.now = 7 + 10 * Time.second := by decide +kernel
  obtain ⟨-, htick, -⟩ := hsweeps 0 sweep hsweep
  obtain ⟨next, hnext, -, hended, -⟩ :=
    htick (7 + 10 * Time.second) (Option.some.inj hphase) (Nat.le_of_eq hnow.symm)
  refine ⟨hkinds.trans (if_pos hstarted), hlength, next, hnext, hended.2 ⟨?_, by decide +kernel⟩⟩
  -- the clock has room for another period
  have hperiod : sweep.period = 10 * Time.second := Option.some.inj hroom
  change ¬sweep.Overflows t.cache.now _
  rw [Sweep.Overflows, hnow, hperiod]
  decide +kernel

/-- The sweep of the longest expiry fails when it is started, whatever the clock shows. -/
theorem sweep_fails_at_start :
    let c := { Config.standard with backend := .memory, expirySeconds := 0xffffffffffffffff }
    let reply : Reply :=
      { device := .accept 0, encrypted := .error (.other ""), decrypted := .error (.other "") }
    let t := (new (c.settings none) (Disk.empty [] 0) 0).through [.call 0 "a" .get, .step 0 reply]
    c.validate = .ok () ∧ t.cache.dropped = false ∧ c.sweepKinds.length = 1 ∧
      t.cache.sweeps.map Sweep.phase = [.failed] := by
  decide +kernel

end Store

end Keyring
