import Keyring.Proofs.Store.Disuse

/-!
# Keys that are in use

Where the entries of a key store expire when they are not used, calls that get a key keep it in the
cache. A call has its secret at the moment at which it finds the name cached, or puts what it has
read into the cache. The entry then has the stamp of that moment, and for the length of the expiry
no sweep removes it and every look-up finds it, however other calls, sweeps and time come in
between, as long as nobody deletes the key.

There is one exception. A call that has read its secret and finds that another reader has put it in
meanwhile leaves the stamp of the other one, which may be as old as its own read has taken. What the
entry is then safe from is measured from the older stamp.

- `SweptCache.ByUse`: all sweeps are by use, and none has read a later time than the clock's;
- `SweptCache.ByUse.used?_finishSweep`: a sweep leaves an entry that was used lately;
- `used?_move`, `Timed.move`: what a move does to the times of last use;
- `Leaves`: moves that do not take a name out of the cache, whatever its age;
- `InUse`, `InUse.move`, `InUse.run`: a name that was used at some time, and that such moves keep it
  so;
- `Gets`, `Overtaken`: calls that are about to have their secret;
- `read_keeps_cached`: what a call that has its secret brings about;
- `evicted_though_read`: the exception.
-/

namespace Keyring

namespace Sweep

variable {s : Sweep} {clock deadline now : Nat} {gone : Bool}

/-- To begin a run changes only what a sweep is doing. -/
theorem exists_begin (s : Sweep) (now : Nat) (gone : Bool) :
    ∃ phase, s.begin now gone = { s with phase } := by
  unfold Sweep.begin
  split
  · exact ⟨_, rfl⟩
  · exact ⟨s.phase, rfl⟩

/-- A sweep that is about to remove entries has read the clock now, or had before. -/
theorem clock_of_begin (h : (s.begin now gone).phase = .clearing clock deadline) :
    clock = now ∨ s.phase = .clearing clock deadline := by
  unfold Sweep.begin at h
  split at h
  · next due _ =>
    dsimp only at h
    generalize s.next? now due = next at h
    cases next with
    | none => cases h
    | some next =>
      cases gone with
      | true => cases h
      | false =>
        cases h
        exact .inl rfl
  · exact .inr h

end Sweep

namespace SweptCache

/-- All sweeps are by use, and none has read a later time than the clock's. -/
def ByUse (c : SweptCache) (expiry : Nat) : Prop :=
  ∀ s ∈ c.sweeps, s.policy = .unused ∧ s.expiry = expiry ∧
    ∀ clock deadline, s.phase = .clearing clock deadline → clock ≤ c.now

variable {c d : SweptCache} {expiry i time : Nat} {name : String} {s : Sweep}

theorem ByUse.mono (h : c.ByUse expiry) (hsweeps : d.sweeps = c.sweeps) (hnow : c.now ≤ d.now) :
    d.ByUse expiry := by
  intro s hs
  obtain ⟨hpolicy, hexpiry, hclock⟩ := h s (hsweeps ▸ hs)
  exact ⟨hpolicy, hexpiry, fun clock deadline hphase =>
    Nat.le_trans (hclock clock deadline hphase) hnow⟩

theorem ByUse.beginSweep (h : c.ByUse expiry) (i : Nat) : (c.beginSweep i).ByUse expiry := by
  unfold SweptCache.beginSweep
  split
  · exact h
  · next s hs =>
    intro other hother
    rcases List.mem_or_eq_of_mem_set hother with hother | rfl
    · exact h other hother
    · obtain ⟨hpolicy, hexpiry, hclock⟩ := h s (List.mem_of_getElem? hs)
      obtain ⟨phase, hbegin⟩ := s.exists_begin c.now c.dropped
      refine ⟨by rw [hbegin]; exact hpolicy, by rw [hbegin]; exact hexpiry, ?_⟩
      intro clock deadline hphase
      rcases Sweep.clock_of_begin hphase with rfl | hbefore
      · exact Nat.le_refl _
      · exact hclock clock deadline hbefore

theorem ByUse.finishSweep (h : c.ByUse expiry) (i : Nat) : (c.finishSweep i).ByUse expiry := by
  unfold SweptCache.finishSweep
  split
  · exact h
  · next s hs =>
    intro other hother
    rcases List.mem_or_eq_of_mem_set hother with hother | rfl
    · exact h other hother
    · obtain ⟨hpolicy, hexpiry, hclock⟩ := h s (List.mem_of_getElem? hs)
      cases hphase : s.phase with
      | clearing clock deadline =>
        rw [Sweep.finish, hphase]
        exact ⟨hpolicy, hexpiry, fun _ _ hwaiting => by cases hwaiting⟩
      | waiting | ended | failed =>
        rw [Sweep.finish, hphase]
        exact ⟨hpolicy, hexpiry, hclock⟩

/-- A sweep by use that is started is one more, and has not read the clock. -/
theorem ByUse.startSweep (h : c.ByUse expiry) : (c.startSweep .unused expiry).2.ByUse expiry := by
  unfold SweptCache.startSweep
  split
  · exact h
  · next started hstart =>
    have hrest := rest_of_start? hstart
    unfold Sweep.start? at hstart
    split at hstart <;> cases hstart
    intro s hs
    rcases List.mem_append.1 hs with hs | hs
    · exact h s hs
    · obtain rfl := List.mem_singleton.1 hs
      exact ⟨rfl, rfl, fun clock deadline hphase => absurd hphase (hrest clock deadline)⟩

/-- **A sweep leaves an entry that had not reached the expiry when it read the clock.** -/
theorem ByUse.used?_finishSweep (h : c.ByUse expiry) (hused : c.used? name = some time)
    (hexpiry : 0 < expiry) (hyoung : ∀ s clock deadline, c.sweeps[i]? = some s →
      s.phase = .clearing clock deadline → clock < time + expiry) :
    (c.finishSweep i).used? name = some time := by
  unfold SweptCache.finishSweep
  split
  · exact hused
  · next s hs =>
    obtain ⟨hpolicy, hlong, -⟩ := h s (List.mem_of_getElem? hs)
    cases hphase : s.phase with
    | clearing clock deadline =>
      have hclock := hyoung s clock deadline hs hphase
      obtain ⟨e, he, rfl⟩ := exists_held_of_stampBy? hused
      rw [Sweep.finish, hphase]
      have hkeeps : s.policy.age clock e < s.expiry := by
        rw [Sweep.Policy.age_eq, hpolicy, hlong]
        omega
      have hstays : (c.cache.retain fun e => s.policy.age clock e < s.expiry).entries.find? name =
          some e := by
        rw [Sweep.find?_retain]
        exact Option.filter_eq_some_iff.2 ⟨he, decide_eq_true hkeeps⟩
      show Option.map _ _ = _
      rw [held?, hstays]
      rfl
    | waiting | ended | failed =>
      rw [Sweep.finish, hphase]
      exact hused

/-- A sweep puts nothing into the cache. -/
theorem used?_of_finishSweep (h : (c.finishSweep i).used? name = some time) :
    c.used? name = some time := by
  obtain ⟨e, he, hstamp⟩ := exists_held_of_stampBy? h
  rw [used?, stampBy?, held?_of_finishSweep he]
  exact congrArg some hstamp

@[simp] theorem used?_beginSweep (c : SweptCache) (i : Nat) (name : String) :
    (c.beginSweep i).used? name = c.used? name := by
  unfold SweptCache.beginSweep
  split <;> rfl

end SweptCache

namespace Store

/-- A call at the stage takes its name out of the cache. -/
def Stage.purges : Stage → Bool
  | .work (.purge _) => true
  | _ => false

/-- A move does not take a name out of the cache, whatever its age. -/
def Leaves (s : Store) (name : String) : Move → Prop
  | .evict other => other ≠ name
  | .step id _ => ∀ call ∈ s.calls.find? id, call.name = name → call.stage.purges = false
  | _ => True

instance (s : Store) (name : String) (m : Move) : Decidable (s.Leaves name m) :=
  match m with
  | .evict other => inferInstanceAs (Decidable (other ≠ name))
  | .step id _ => inferInstanceAs (Decidable
      (∀ call ∈ s.calls.find? id, call.name = name → call.stage.purges = false))
  | .call _ _ _ | .wait _ | .beginSweep _ | .finishSweep _ => instDecidableTrue

/-- All sweeps are by use, and nothing was used later than now. -/
structure Timed (s : Store) : Prop where
  byUse : s.cache.ByUse s.settings.unusedExpiry
  past : ∀ name time, s.used? name = some time → time ≤ s.cache.now

/-- A name was used at some time: it has not been marked with an earlier one since, and is cached
until the expiry. -/
structure InUse (s : Store) (name : String) (since : Nat) : Prop where
  timed : s.Timed
  past : since ≤ s.cache.now
  used : ∀ time, s.used? name = some time → since ≤ time
  cached : s.cache.now < since + s.settings.unusedExpiry → s.used? name ≠ none

section

variable {settings : Settings} {s t : Store} {id since : Nat} {name : String} {reply : Reply}
  {call : Call} {stage : Stage} {m : Move} {moves before after : List Move}

/-! ### The sweeps -/

theorem now_cacheAfter (s : Store) (name : String) (stage : Stage) :
    (stage.cacheAfter s name).now = s.cache.now := by
  cases stage with
  | start =>
    obtain ⟨sweeps, hsweeps⟩ := s.exists_opened name
    rw [Stage.cacheAfter, hsweeps]
  | work w => cases w <;> rfl
  | _ => rfl

/-- A step of a call starts no sweep but by use. -/
theorem byUse_cacheAfter (h : s.cache.ByUse s.settings.unusedExpiry)
    (hexpiry : s.settings.expiry = 0) (name : String) (stage : Stage) :
    (stage.cacheAfter s name).ByUse s.settings.unusedExpiry := by
  cases stage with
  | start =>
    show (s.opened name).cache.ByUse _
    unfold Store.opened startSweeps
    split
    · split
      · exact h
      · rw [hexpiry, SweptCache.startSweep_zero]
        exact h.startSweep
    · exact h
  | work w => cases w <;> exact h.mono rfl (Nat.le_refl _)
  | _ => exact h.mono rfl (Nat.le_refl _)

/-! ### Each move -/

/-- The cache, the settings and the marks after a step of a call. -/
theorem used?_step (hsound : s.Sound) (hcall : s.calls.find? id = some call) (reply : Reply) :
    (s.step id reply).cache = call.stage.cacheAfter s call.name ∧
      (s.step id reply).settings = s.settings ∧
      ∀ n, (s.step id reply).used? n = if n = call.name then
        call.stage.remark s.cache.now (s.used? call.name) else s.used? n := by
  have hfits := hsound.fits id call hcall
  obtain ⟨⟨change, hadv⟩, -⟩ := exists_advances_perform hcall hfits reply
  have hcache : (s.step id reply).cache = call.stage.cacheAfter s call.name := by
    rw [Store.step, hcall]
    exact (spends_perform id reply hfits).cache
  refine ⟨hcache, hadv.settings, fun n => ?_⟩
  rw [used?, hcache, used?_cacheAfter]

/-- A step marks a name with the moment, or leaves its mark or takes it away. -/
theorem Stage.remark_cases {now time : Nat} {before : Option Nat}
    (h : stage.remark now before = some time) : time = now ∨ before = some time := by
  unfold Stage.remark at h
  split at h
  · obtain ⟨_, -, rfl⟩ := Option.map_eq_some_iff.1 h
    exact .inl rfl
  · obtain ⟨_, -, rfl⟩ := Option.map_eq_some_iff.1 h
    exact .inl rfl
  · exact .inl (Option.some.inj h).symm
  · cases before with
    | none => exact .inl (Option.some.inj h).symm
    | some old => exact .inr h
  · cases h
  · exact .inr h

/-- Only a purge takes a mark away. -/
theorem Stage.remark_ne_none {now : Nat} {before : Option Nat} (hbefore : before ≠ none)
    (hkept : stage.purges = false) : stage.remark now before ≠ none := by
  obtain ⟨time, rfl⟩ := Option.ne_none_iff_exists'.1 hbefore
  unfold Stage.remark
  split
  case h_5 => cases hkept
  all_goals exact Option.some_ne_none _

/-- A call that was not made makes no steps. -/
theorem step_of_none (h : s.calls.find? id = none) (reply : Reply) : s.step id reply = s := by
  rw [Store.step, h]

theorem now_le_move (hsound : s.Sound) (m : Move) : s.cache.now ≤ (s.move m).cache.now := by
  cases m with
  | call | evict => exact Nat.le_refl _
  | wait duration => exact Nat.le_add_right _ _
  | beginSweep i => exact Nat.le_of_eq (SweptCache.now_happen s.cache (.begin i)).symm
  | finishSweep i => exact Nat.le_of_eq (SweptCache.now_happen s.cache (.finish i)).symm
  | step id reply =>
    show s.cache.now ≤ (s.step id reply).cache.now
    cases hcall : s.calls.find? id with
    | none => rw [step_of_none hcall]
    | some call => rw [(used?_step hsound hcall reply).1, now_cacheAfter]

/-- A move marks a name with the moment, or leaves its mark or takes it away. -/
theorem used?_move {time : Nat} (hsound : s.Sound) (h : (s.move m).used? name = some time) :
    time = s.cache.now ∨ s.used? name = some time := by
  cases m with
  | call | wait => exact .inr h
  | step id reply =>
    change (s.step id reply).used? name = some time at h
    cases hcall : s.calls.find? id with
    | none =>
      rw [step_of_none hcall] at h
      exact .inr h
    | some call =>
      rw [(used?_step hsound hcall reply).2.2] at h
      split at h
      · next hname => exact hname ▸ Stage.remark_cases h
      · exact .inr h
  | beginSweep i => exact .inr ((s.cache.used?_beginSweep i name).symm.trans h)
  | finishSweep i => exact .inr (SweptCache.used?_of_finishSweep h)
  | evict other =>
    have herase : (s.cache.erase other).used? name = some time := h
    rw [SweptCache.used?_erase] at herase
    split at herase
    · cases herase
    · exact .inr herase

/-- No move starts another sweep than by use, or uses anything later than now. -/
theorem Timed.move (h : s.Timed) (hsound : s.Sound) (hexpiry : s.settings.expiry = 0) (m : Move) :
    (s.move m).Timed := by
  have hnow := now_le_move hsound m
  constructor
  · cases m with
    | call => exact h.byUse
    | wait duration => exact h.byUse.mono rfl hnow
    | beginSweep i => exact h.byUse.beginSweep i
    | finishSweep i => exact h.byUse.finishSweep i
    | evict => exact h.byUse.mono rfl hnow
    | step id reply =>
      show (s.step id reply).cache.ByUse (s.step id reply).settings.unusedExpiry
      cases hcall : s.calls.find? id with
      | none =>
        rw [step_of_none hcall]
        exact h.byUse
      | some call =>
        obtain ⟨hcache, hsettings, -⟩ := used?_step hsound hcall reply
        rw [hcache, hsettings]
        exact byUse_cacheAfter h.byUse hexpiry call.name call.stage
  · intro name time htime
    rcases used?_move hsound htime with rfl | hold
    · exact hnow
    · exact Nat.le_trans (h.past name time hold) hnow

/-- **A move that leaves a name in the cache keeps it in use.** -/
theorem InUse.move (h : s.InUse name since) (hsound : s.Sound) (hexpiry : s.settings.expiry = 0)
    (hunused : 0 < s.settings.unusedExpiry) (hleaves : s.Leaves name m) :
    (s.move m).InUse name since := by
  have hnow := now_le_move hsound m
  refine ⟨h.timed.move hsound hexpiry m, Nat.le_trans h.past hnow, fun time htime => ?_,
    fun hyoung => ?_⟩
  · rcases used?_move hsound htime with rfl | hold
    · exact h.past
    · exact h.used time hold
  have hearlier (hsettings : (s.move m).settings = s.settings) :
      s.cache.now < since + s.settings.unusedExpiry := by
    rw [hsettings] at hyoung
    exact Nat.lt_of_le_of_lt hnow hyoung
  cases m with
  | call | wait => exact h.cached (hearlier rfl)
  | step id reply =>
    show (s.step id reply).used? name ≠ none
    cases hcall : s.calls.find? id with
    | none =>
      rw [step_of_none hcall]
      exact h.cached (hearlier (congrArg Store.settings (step_of_none hcall reply)))
    | some call =>
      obtain ⟨-, hsettings, hmarks⟩ := used?_step hsound hcall reply
      rw [hmarks]
      have hused := h.cached (hearlier hsettings)
      split
      · next hname =>
        subst hname
        exact Stage.remark_ne_none hused (hleaves call hcall rfl)
      · exact hused
  | beginSweep i =>
    show (s.cache.beginSweep i).used? name ≠ none
    rw [SweptCache.used?_beginSweep]
    exact h.cached (hearlier rfl)
  | finishSweep i =>
    -- a sweep has read no later time than the clock's
    have hyoung' := hearlier rfl
    obtain ⟨time, htime⟩ := Option.ne_none_iff_exists'.1 (h.cached hyoung')
    have hsince := h.used time htime
    have hstays : (s.cache.finishSweep i).used? name = some time := by
      refine h.timed.byUse.used?_finishSweep htime hunused
        fun sweep clock deadline hsweep hphase => ?_
      have hclock := (h.timed.byUse sweep (List.mem_of_getElem? hsweep)).2.2 clock deadline hphase
      omega
    show (s.cache.finishSweep i).used? name ≠ none
    rw [hstays]
    exact Option.some_ne_none time
  | evict other =>
    have hne : ¬name = other := fun heq => hleaves heq.symm
    show (s.cache.erase other).used? name ≠ none
    rw [SweptCache.used?_erase, if_neg hne]
    exact h.cached (hearlier rfl)

/-- **So does a run.** -/
theorem InUse.run (h : s.InUse name since) (hsound : s.Sound) (hexpiry : s.settings.expiry = 0)
    (hunused : 0 < s.settings.unusedExpiry) (hlegal : Legal (fun t m => t.Leaves name m) s moves) :
    (s.run moves).InUse name since := by
  refine (hlegal.invariant (P := fun t => t.Sound ∧ t.settings = s.settings ∧ t.InUse name since)
    (fun t m ht hfresh hleaves => ?_) ⟨hsound, rfl, h⟩).2.2
  obtain ⟨hsound, hsettings, hinUse⟩ := ht
  have hone : Legal (fun t m => t.Leaves name m) t [m] := ⟨hfresh, hleaves, trivial⟩
  refine ⟨hone.sound hsound, (hone.settings_eq hsound).trans hsettings, ?_⟩
  exact hinUse.move hsound (by rw [hsettings]; exact hexpiry) (by rw [hsettings]; exact hunused)
    hleaves

/-- A new store has no sweeps, and nothing was used. -/
theorem timed_new (settings : Settings) (disk : Disk) (now : Nat) :
    (new settings disk now).Timed :=
  ⟨fun s hs => absurd hs List.not_mem_nil, fun name time htime => by cases htime⟩

theorem Timed.run (h : s.Timed) (hsound : s.Sound) (hexpiry : s.settings.expiry = 0)
    (hlegal : Legal (fun _ _ => True) s moves) : (s.run moves).Timed := by
  refine (hlegal.invariant (P := fun t => t.Sound ∧ t.settings = s.settings ∧ t.Timed)
    (fun t m ht hfresh _ => ?_) ⟨hsound, rfl, h⟩).2.2
  obtain ⟨hsound, hsettings, htimed⟩ := ht
  have hone : Legal (fun _ _ => True) t [m] := ⟨hfresh, trivial, trivial⟩
  exact ⟨hone.sound hsound, (hone.settings_eq hsound).trans hsettings,
    htimed.move hsound (by rw [hsettings]; exact hexpiry) m⟩

/-! ### Calls that have their secret -/

/-- A call gets a key and is about to have its secret: its look-up finds the name, or it has read
the secret. -/
def Gets (s : Store) (id : Nat) (name : String) : Prop :=
  ∃ call, s.calls.find? id = some call ∧ call.name = name ∧
    ((call.stage = .lookUp ∧ s.cached? name ≠ none) ∨
      ∃ secret, call.stage = .work (.cacheRead secret))

/-- Another reader has put in the secret that a call has read. -/
def Overtaken (s : Store) (id : Nat) (name : String) : Prop :=
  s.cached? name ≠ none ∧ ∃ call secret, s.calls.find? id = some call ∧
    call.stage = .work (.cacheRead secret)

/-- A call that has its secret has marked its name, with the moment unless another reader has put
the secret in before. -/
theorem Gets.used? (h : s.Gets id name) (hsound : s.Sound) (reply : Reply) :
    (¬s.Overtaken id name → (s.step id reply).used? name = some s.cache.now) ∧
      (s.Overtaken id name → (s.step id reply).used? name = s.used? name) := by
  obtain ⟨call, hcall, rfl, hstage⟩ := h
  obtain ⟨-, -, hmarks⟩ := used?_step hsound hcall reply
  rw [hmarks, if_pos rfl]
  rcases hstage with ⟨hstage, hcached⟩ | ⟨secret, hstage⟩
  · obtain ⟨time, htime⟩ := Option.ne_none_iff_exists'.1 (mt used?_eq_none_iff.1 hcached)
    rw [hstage, htime]
    refine ⟨fun _ => rfl, ?_⟩
    rintro ⟨-, other, secret, hother, hread⟩
    obtain rfl := Option.some.inj (hcall.symm.trans hother)
    cases hstage.symm.trans hread
  · rw [hstage]
    refine ⟨fun hfirst => ?_, fun hovertaken => ?_⟩
    · have hnone : s.used? call.name = none := by
        by_contra hsome
        exact hfirst ⟨mt used?_eq_none_iff.2 hsome, call, secret, hcall, hstage⟩
      rw [hnone]
      rfl
    · obtain ⟨time, htime⟩ :=
        Option.ne_none_iff_exists'.1 (mt used?_eq_none_iff.1 hovertaken.1)
      rw [htime]
      rfl

/-- A look-up of a name that is cached is a hit, and asks for nothing. -/
theorem lookUp_of_cached (hsound : s.Sound) (hcall : s.calls.find? id = some call)
    (hstage : call.stage = .lookUp) (hcached : s.cached? call.name ≠ none) (reply : Reply) :
    (∃ secret, (s.step id reply).outcome? id = some (.ok (.secret secret))) ∧
      (s.step id reply).encryptions = s.encryptions ∧
      (s.step id reply).decryptions = s.decryptions := by
  have hfits := hsound.fits id call hcall
  obtain ⟨⟨change, hadv⟩, -⟩ := exists_advances_perform hcall hfits reply
  have hspends := spends_perform id reply hfits
  have hnext := hadv.next
  rw [hstage] at hnext
  generalize hstage' : (s.perform id call reply).2 = stage' at hnext
  cases hnext with
  | miss hnone => exact absurd hnone hcached
  | @hit held hheld =>
    have hencryptions := hspends.encryptions
    have hdecryptions := hspends.decryptions
    rw [hstage'] at hencryptions hdecryptions
    refine ⟨⟨held, ?_⟩, ?_, ?_⟩
    · have hself := hadv.calls id
      rw [if_pos rfl, hstage'] at hself
      exact outcome?_eq_some_iff.2 ⟨_, hself, rfl⟩
    · rw [Store.step, hcall]
      exact hencryptions
    · rw [Store.step, hcall]
      exact hdecryptions

/-- **A key that is read stays cached.** Where entries expire when they are not used, and not by
their age, calls, sweeps and time come in any order, and then a call that gets a key has its secret.
From then on the key is in use, with the stamp of that moment, or with that of another reader that
has put the secret in while the call was reading it. However things go on, as long as nobody takes
the name out of the cache but a sweep: no sweep that has read the clock before the expiry has passed
since the stamp removes the entry, and until then every look-up of the name is a hit and asks for no
decryption. -/
theorem read_keeps_cached {disk : Disk} {now : Nat} (hexpiry : settings.expiry = 0)
    (hunused : 0 < settings.unusedExpiry)
    (hbefore : Legal (fun _ _ => True) (new settings disk now) before)
    (hs : (new settings disk now).run before = s) (hgets : s.Gets id name)
    (hafter : Legal (fun u m => u.Leaves name m) (s.step id reply) after)
    (ht : (s.step id reply).run after = t) :
    ∃ since, (s.step id reply).used? name = some since ∧
      (¬s.Overtaken id name → since = s.cache.now) ∧
      (s.Overtaken id name → s.used? name = some since) ∧
      (∀ i sweep clock deadline, t.cache.sweeps[i]? = some sweep →
        sweep.phase = .clearing clock deadline → clock < since + settings.unusedExpiry →
        t.cached? name ≠ none → (t.move (.finishSweep i)).cached? name ≠ none) ∧
      (t.cache.now < since + settings.unusedExpiry →
        t.cached? name ≠ none ∧
          ∀ j call reply, t.calls.find? j = some call → call.name = name →
            call.stage = .lookUp →
            (∃ secret, (t.step j reply).outcome? j = some (.ok (.secret secret))) ∧
              (t.step j reply).encryptions = t.encryptions ∧
              (t.step j reply).decryptions = t.decryptions) := by
  have hsound : s.Sound := hs ▸ hbefore.sound (sound_new settings disk now)
  have hsettings : s.settings = settings :=
    hs ▸ hbefore.settings_eq (sound_new settings disk now)
  have hnone : s.settings.expiry = 0 := by rw [hsettings, hexpiry]
  have htimed : s.Timed :=
    hs ▸ (timed_new settings disk now).run (sound_new settings disk now) hexpiry hbefore
  obtain ⟨hfirst, hovertaken⟩ := hgets.used? hsound reply
  have hread : (s.step id reply).settings = settings ∧ (s.step id reply).Sound := by
    obtain ⟨call, hcall, -⟩ := hgets
    exact ⟨(used?_step hsound hcall reply).2.1.trans hsettings, hsound.step hcall reply⟩
  obtain ⟨since, hsince⟩ : ∃ since, (s.step id reply).used? name = some since := by
    by_cases hover : s.Overtaken id name
    · obtain ⟨time, htime⟩ := Option.ne_none_iff_exists'.1 (mt used?_eq_none_iff.1 hover.1)
      exact ⟨time, (hovertaken hover).trans htime⟩
    · exact ⟨s.cache.now, hfirst hover⟩
  -- from its read on, the name is in use
  have hstart : (s.step id reply).InUse name since := by
    have hstep : (s.step id reply).Timed := htimed.move hsound hnone (.step id reply)
    refine ⟨hstep, hstep.past name since hsince, fun time htime => ?_, fun _ => ?_⟩
    · exact Nat.le_of_eq (Option.some.inj (hsince.symm.trans htime))
    · rw [hsince]
      exact Option.some_ne_none since
  have hinUse : t.InUse name since :=
    ht ▸ hstart.run hread.2 (by rw [hread.1, hexpiry]) (by rw [hread.1]; exact hunused) hafter
  have hlast : t.settings = settings ∧ t.Sound :=
    ht ▸ ⟨(hafter.settings_eq hread.2).trans hread.1, hafter.sound hread.2⟩
  refine ⟨since, hsince, fun hnot => ?_, fun hover => (hovertaken hover).symm.trans hsince, ?_, ?_⟩
  · exact Option.some.inj (hsince.symm.trans (hfirst hnot))
  · intro i sweep clock deadline hsweep hphase hclock hcached
    obtain ⟨time, htime⟩ := Option.ne_none_iff_exists'.1 (mt used?_eq_none_iff.1 hcached)
    have hlater := hinUse.used time htime
    have hbyUse := hinUse.timed.byUse
    rw [hlast.1] at hbyUse
    have hstays : (t.cache.finishSweep i).used? name = some time := by
      refine hbyUse.used?_finishSweep htime hunused fun other clock' deadline' hother hphase' => ?_
      obtain rfl := Option.some.inj (hsweep.symm.trans hother)
      cases hphase.symm.trans hphase'
      omega
    intro hgone
    cases hstays.symm.trans (used?_eq_none_iff.2 hgone)
  · intro hyoung
    have hcached : t.cached? name ≠ none := fun hgone =>
      hinUse.cached (by rw [hlast.1]; exact hyoung) (used?_eq_none_iff.2 hgone)
    refine ⟨hcached, fun j call reply hcall hname hstage => ?_⟩
    exact lookUp_of_cached hlast.2 hcall hstage (by rw [hname]; exact hcached) reply

end

namespace Sample

/-- A sweep runs. -/
def sweep : List Move := [.beginSweep 0, .finishSweep 0]

/-- Half a second passes, and the sweep runs. -/
def halfSecond : List Move := .wait (500 * Time.millisecond) :: sweep

/-- A key is created, and 0.9 seconds later a call looks its name up. -/
def lookedUp : List Move :=
  .call 1 "a" (.create secret) :: steps 1 10 ++ halfSecond ++
    .wait (400 * Time.millisecond) :: .call 2 "a" .get :: steps 2 1

/-- Almost another second passes with two sweeps, and another call looks the name up. -/
def lookedUpLater : List Move :=
  .wait (100 * Time.millisecond) :: sweep ++ halfSecond ++
    .wait (399 * Time.millisecond) :: .call 3 "a" .get :: steps 3 1

/-- A key is created and expires. Two calls read it, and the second one has its secret 0.9 seconds
after the first one. -/
def overtaking : List Move :=
  .call 1 "a" (.create secret) :: steps 1 10 ++ halfSecond ++ halfSecond ++
    .call 2 "a" .get :: steps 2 6 ++ .call 3 "a" .get :: steps 3 6 ++ steps 2 3 ++ halfSecond ++
    .wait (400 * Time.millisecond) :: steps 3 1

/-- The call returns, and the next sweep runs. -/
def sweptAfterwards : List Move := steps 3 1 ++ .wait (100 * Time.millisecond) :: sweep

end Sample

/-- A key that was looked up is still found almost a second later, after two sweeps. -/
theorem read_keeps_cached_lookedUp :
    let s := (new Sample.idling Sample.disk 0).run Sample.lookedUp
    let t := (s.step 2 (Sample.reply 0)).run Sample.lookedUpLater
    s.Gets 2 "a" ∧ t.cached? "a" ≠ none ∧
      (∃ secret, (t.step 3 (Sample.reply 0)).outcome? 3 = some (.ok (.secret secret))) ∧
      (t.step 3 (Sample.reply 0)).decryptions = t.decryptions := by
  intro s t
  have hbefore : Legal (fun _ _ => True) (new Sample.idling Sample.disk 0) Sample.lookedUp := by
    decide +kernel
  have hgets : s.Gets 2 "a" :=
    ⟨⟨"a", .get, .lookUp⟩, by decide +kernel, rfl, .inl ⟨rfl, by decide +kernel⟩⟩
  have hafter : Legal (fun u m => u.Leaves "a" m) (s.step 2 (Sample.reply 0))
      Sample.lookedUpLater := by decide +kernel
  obtain ⟨since, -, hsince, -, -, hfinds⟩ :=
    read_keeps_cached rfl (by decide) hbefore rfl hgets hafter rfl
  -- the look-up has found the name at first hand
  have hfirst : ¬s.Overtaken 2 "a" := by
    rintro ⟨-, call, secret, hcall, hread⟩
    have hother : s.calls.find? 2 = some ⟨"a", .get, .lookUp⟩ := by decide +kernel
    obtain rfl := Option.some.inj (hcall.symm.trans hother)
    cases hread
  obtain rfl := hsince hfirst
  obtain ⟨hcached, hhits⟩ := hfinds (by decide +kernel)
  obtain ⟨hhit, -, hcosts⟩ :=
    hhits 3 ⟨"a", .get, .lookUp⟩ (Sample.reply 0) (by decide +kernel) rfl rfl
  exact ⟨hgets, hcached, hhit, hcosts⟩

/-- **A key that is read can be evicted at once.** A call has its secret, and a sweep that reads the
clock a tenth of a second later removes the entry, since another reader has put it in a second ago;
the entries are to stay for a second after their last use. -/
theorem evicted_though_read :
    let s := (new Sample.idling Sample.disk 0).run Sample.overtaking
    let t := (s.step 3 (Sample.reply 0)).run Sample.sweptAfterwards
    Legal (fun _ _ => True) (new Sample.idling Sample.disk 0) Sample.overtaking ∧ s.Gets 3 "a" ∧
      Legal (fun u m => u.Leaves "a" m) (s.step 3 (Sample.reply 0)) Sample.sweptAfterwards ∧
      t.outcome? 3 = some (.ok (.secret Sample.secret)) ∧
      t.cache.now < s.cache.now + Sample.idling.unusedExpiry ∧ t.cached? "a" = none := by
  intro s t
  refine ⟨by decide +kernel, ?_, by decide +kernel, by decide +kernel, by decide +kernel,
    by decide +kernel⟩
  exact ⟨⟨"a", .get, .work (.cacheRead Sample.secret)⟩, by decide +kernel, rfl,
    .inr ⟨Sample.secret, rfl⟩⟩

end Store

end Keyring
