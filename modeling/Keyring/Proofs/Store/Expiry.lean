import Keyring.Proofs.Store.Staleness

/-!
# What it costs to get a key

A name is put into the cache when its key is created, and when its key is got though the name is not
cached. From then on, as long as only the caller of the store does something, getting the key costs
nothing until the expiry is reached, and one decryption again when the sweep by age has had the time
to come by.

- `Turn.Plain`, `Puts`: what only the caller does, and turns that put a name into the cache;
- `Paused.puts`, `Called.of_hit`, `Called.of_miss`: stamps that are new, and what a call costs;
- `Aged.stamp?_turnAll`: a name that was put into the cache stays there until the expiry;
- `Paused.readable_turnAll`: its record can be read as long as it is there;
- `get_costs`: what getting a key costs.
-/

namespace Keyring.Store

/-- Only the caller does something, and the store stays. -/
def Turn.Plain : Turn → Prop
  | .action (.call _ _) | .action (.advance _) | .action (.jump _) => True
  | .action .reopen | .replace _ => False

section

variable (environment : Environment)

/-- A turn puts a name into the cache: it creates the key, or gets it though the name is not
cached. -/
inductive Puts (n : Nat) (s : Store) (name : String) : Turn → Prop where
  | create {secret : Secret} {answer : Answer}
    (h : (s.turn environment n (.action (.call name (.create secret)))).outcome? n =
      some (.ok answer)) : Puts n s name (.action (.call name (.create secret)))
  | get {answer : Answer} (hmiss : s.cached? name = none)
    (h : (s.turn environment n (.action (.call name .get))).outcome? n = some (.ok answer)) :
    Puts n s name (.action (.call name .get))

/-- Getting a key gives a secret, and costs so many decryptions and no encryption. -/
def Costs (n : Nat) (s : Store) (name : String) (cost : Nat) : Prop :=
  (∃ secret, (s.turn environment n (.action (.call name .get))).outcome? n =
      some (.ok (.secret secret))) ∧
    (s.turn environment n (.action (.call name .get))).encryptions = s.encryptions ∧
    (s.turn environment n (.action (.call name .get))).decryptions = s.decryptions + cost

/-- Some turns put a name into the cache. -/
def PutsAmong (n : Nat) (s : Store) (name : String) (turns : List Turn) : Prop :=
  ∃ earlier one later, turns = earlier ++ one :: later ∧
    (s.turnAll environment n earlier).Puts environment (n + earlier.length) name one

end

/-- The record of a name can be read, if it is there. -/
def Readable (opens : Ciphertext → Option Secret) (s : Store) (name : String) : Prop :=
  ∀ record, s.record? name = some record →
    ∃ secret, secretOf s.settings opens record = some secret

section

variable {environment : Environment} {settings : Settings} {opens : Ciphertext → Option Secret}
  {s t : Store} {n stamp : Nat} {name other : String} {operation : Operation} {outcome : Outcome}
  {secret : Secret} {turns : List Turn} {one : Turn}

/-! ### Calls -/

/-- A call under a name that is not valid fails. -/
theorem Called.valid {answer : Answer} (h : Called opens s t n name operation (.ok answer)) :
    KeyName.Valid name := by
  have hfinishes := h.finishes
  unfold Finishes at hfinishes
  split at hfinishes
  · cases hfinishes.1
  · next hok => exact KeyName.validate_eq_ok_iff.1 hok

/-- How a call under a valid name has ended. -/
theorem Called.ends (h : Called opens s t n name operation outcome) (hvalid : KeyName.Valid name) :
    Ends s.settings opens (s.slot name) operation outcome (t.slot name) := by
  have hfinishes := h.finishes
  rw [Finishes, KeyName.validate_eq_ok_iff.2 hvalid] at hfinishes
  exact hfinishes

/-- No key is created under a name that is cached. -/
theorem Called.not_created (h : Called opens s t n name (.create secret) outcome)
    (hstamp : s.stamp? name = some stamp) (answer : Answer) : outcome ≠ .ok answer := by
  rintro rfl
  have hends := h.ends h.valid
  generalize hslot : t.slot name = now at hends
  cases hends with
  | created hbefore => cases (stamp?_eq_none_iff.2 (congrArg Slot.cached hbefore)).symm.trans hstamp

/-- A call under a valid name that is cached gives the secret and costs nothing. -/
theorem Called.of_hit (h : Called opens s t n name .get outcome) (hvalid : KeyName.Valid name)
    (hstamp : s.stamp? name = some stamp) :
    (∃ secret, outcome = .ok (.secret secret)) ∧ t.encryptions = s.encryptions ∧
      t.decryptions = s.decryptions := by
  have hcached : s.cached? name ≠ none := by
    rw [Ne, ← stamp?_eq_none_iff, hstamp]
    simp
  obtain ⟨held, hheld⟩ := Option.ne_none_iff_exists'.1 hcached
  obtain rfl := (h.ends hvalid).eq_of_cached hheld
  obtain ⟨hencryptions, count, hdecryptions, hasked⟩ := h.tally.asked rfl
  simp only [Stage.Asked, hstamp] at hasked
  subst hasked
  exact ⟨⟨held, rfl⟩, hencryptions, hdecryptions⟩

/-- A call under a valid name that is not cached reads the record, and costs one decryption. -/
theorem Called.of_miss (h : Called opens s t n name .get outcome) (hvalid : KeyName.Valid name)
    (hkey : s.settings.masterKey ≠ none) (hmiss : s.stamp? name = none)
    (hpresent : s.record? name ≠ none) (hreadable : s.Readable opens name) :
    (∃ secret, outcome = .ok (.secret secret)) ∧ t.encryptions = s.encryptions ∧
      t.decryptions = s.decryptions + 1 := by
  have hgiven : ∃ secret, outcome = .ok (.secret secret) := by
    have hends := h.ends hvalid
    generalize hslot : s.slot name = before at hends
    generalize hslot' : t.slot name = now at hends
    cases hends with
    | hit hcached =>
      subst hslot
      cases (stamp?_eq_none_iff.1 hmiss).symm.trans hcached
    | nothing hbefore => exact absurd (congrArg Slot.record (hslot.trans hbefore)) hpresent
    | read => exact ⟨_, rfl⟩
    | unreadable hbefore hopens =>
      obtain ⟨secret, hsecret⟩ := hreadable _ (congrArg Slot.record (hslot.trans hbefore))
      cases hopens.symm.trans hsecret
  obtain ⟨secret, rfl⟩ := hgiven
  obtain ⟨hencryptions, count, hdecryptions, hasked⟩ := h.tally.asked rfl
  simp only [Stage.Asked, hmiss, Option.isSome_iff_ne_none.2 hkey] at hasked
  subst hasked
  exact ⟨⟨secret, rfl⟩, hencryptions, hdecryptions⟩

/-- A call leaves a record that can be read, if there was one or none. -/
theorem Called.readable (h : Called opens s t n other operation outcome)
    (hreadable : s.Readable opens name) : t.Readable opens name := by
  intro record hrecord
  rw [h.tally.settings]
  by_cases hname : name = other
  case neg =>
    exact hreadable record ((congrArg Slot.record (h.apart.slot name hname)).symm.trans hrecord)
  case pos =>
    subst hname
    have hfinishes := h.finishes
    have hnow : (t.slot name).record = some record := hrecord
    unfold Finishes at hfinishes
    split at hfinishes
    · exact hreadable record ((congrArg Slot.record hfinishes.2).symm.trans hrecord)
    · generalize hslot : t.slot name = now at hfinishes hnow
      cases hfinishes with
      | created _ hseals =>
        obtain rfl := Option.some.inj hnow
        exact ⟨_, hseals.secretOf_eq⟩
      | read _ hopens =>
        obtain rfl := Option.some.inj hnow
        exact ⟨_, hopens⟩
      | deleted => cases hnow
      | taken | stored | hit | nothing | unreadable => exact hreadable record hnow

/-- A stamp that is new is that of a call that puts its name into the cache. -/
theorem Called.puts (h : Called opens s (s.turn environment n (.action (.call name operation))) n
      name operation outcome)
    (hstamp : (s.turn environment n (.action (.call name operation))).stamp? name = some stamp) :
    s.stamp? name = some stamp ∨ s.Puts environment n name (.action (.call name operation)) := by
  have hown := h.tally.own
  simp only [hstamp, Stage.stampAfter] at hown
  have hended := h.ended
  cases operation with
  | create secret =>
    cases outcome with
    | ok answer => exact .inr (.create hended)
    | error error => exact .inl hown.symm
  | get =>
    cases outcome with
    | ok answer =>
      cases hbefore : s.stamp? name with
      | none => exact .inr (.get (stamp?_eq_none_iff.1 hbefore) hended)
      | some old =>
        rw [hbefore] at hown
        exact .inl hown.symm
    | error error => exact .inl hown.symm
  | delete =>
    by_cases hvalid : KeyName.Valid name
    · simp [hvalid] at hown
    · exact .inl (by simpa [hvalid] using hown.symm)

/-- A stamp that is new is that of a turn that puts the name into the cache. -/
theorem Paused.puts (h : s.Paused n) (hsmooth : Smooth environment s.settings opens [one])
    (hstamp : (s.turn environment n one).stamp? name = some stamp) :
    s.stamp? name = some stamp ∨ s.Puts environment n name one := by
  cases one with
  | replace disk => exact .inl hstamp
  | action a =>
    cases a with
    | call other operation =>
      obtain ⟨outcome, hcalled⟩ := h.idle.called (h.free n (Nat.le_refl n)) hsmooth
      by_cases hname : name = other
      · subst hname
        exact hcalled.puts hstamp
      · exact .inl ((hcalled.tally.others name hname).symm.trans hstamp)
    | advance duration => exact .inl (SweptCache.stamp?_of_advance hstamp)
    | jump duration => exact .inl (SweptCache.stamp?_of_jump hstamp)
    | reopen => cases hstamp

/-- What a record unseals to can be read off it. -/
theorem Unseals.readable (h : s.Unseals opens name secret) : s.Readable opens name := by
  intro record hrecord
  rw [Unseals, hrecord] at h
  exact ⟨secret, h⟩

/-- A call that puts in a new stamp leaves a record that can be read. -/
theorem Called.readable_of_stamp? (h : Called opens s t n name operation outcome)
    (hnew : s.stamp? name ≠ some stamp) (hstamp : t.stamp? name = some stamp) :
    t.Readable opens name := by
  have hcached : t.cached? name ≠ none := by
    rw [Ne, ← stamp?_eq_none_iff, hstamp]
    simp
  obtain ⟨secret, hsecret⟩ := Option.ne_none_iff_exists'.1 hcached
  rcases h.origin hsecret hstamp with ⟨-, hunseals⟩ | ⟨hold, -⟩
  · exact hunseals.readable
  · exact absurd hold hnew

/-- A name that is put into the cache is valid, its record can be read, and its stamp is the
moment. -/
theorem Puts.holds (hputs : s.Puts environment n name one) (h : s.Paused n)
    (hsmooth : Smooth environment s.settings opens [one]) :
    KeyName.Valid name ∧ (s.turn environment n one).Readable opens name ∧
      (s.turn environment n one).stamp? name = some s.cache.now := by
  have hfree := h.free n (Nat.le_refl n)
  cases hputs with
  | create hended =>
    obtain ⟨outcome, hcalled⟩ := h.idle.called hfree hsmooth
    obtain rfl := Option.some.inj (hcalled.ended.symm.trans hended)
    have hstamp := hcalled.tally.own
    refine ⟨hcalled.valid, hcalled.readable_of_stamp? (fun hold => ?_) hstamp, hstamp⟩
    exact hcalled.not_created hold _ rfl
  | get hmiss hended =>
    obtain ⟨outcome, hcalled⟩ := h.idle.called hfree hsmooth
    obtain rfl := Option.some.inj (hcalled.ended.symm.trans hended)
    have hnone : s.stamp? name = none := stamp?_eq_none_iff.2 hmiss
    have hstamp := hcalled.tally.own
    simp only [Stage.stampAfter, hnone, Option.getD_none] at hstamp
    exact ⟨hcalled.valid, hcalled.readable_of_stamp? (by simp [hnone]) hstamp, hstamp⟩

/-- A key is created, and its name put into the cache, if nothing is there. -/
theorem Paused.creates (h : s.Paused n)
    (hsmooth : Smooth environment s.settings opens [.action (.call name (.create secret))])
    (hvalid : KeyName.Valid name) (hnothing : s.slot name = ⟨none, none⟩) :
    s.Puts environment n name (.action (.call name (.create secret))) ∧
      (s.turn environment n (.action (.call name (.create secret)))).record? name ≠ none := by
  obtain ⟨outcome, hcalled⟩ := h.idle.called (h.free n (Nat.le_refl n)) hsmooth
  have hends := hcalled.ends hvalid
  have hended := hcalled.ended
  rw [hnothing] at hends
  generalize hslot : (s.turn environment n (.action (.call name (.create secret)))).slot name = now
    at hends
  cases hends with
  | taken hheld => cases hheld
  | stored _ hrecord => cases hrecord
  | created _ _ =>
    refine ⟨.create hended, fun hnone => ?_⟩
    cases (congrArg Slot.record hslot).symm.trans hnone

/-- To wait leaves the records alone. -/
theorem record?_advance (s : Store) (n duration : Nat) (name : String) :
    (s.turn environment n (.action (.advance duration))).record? name = s.record? name := rfl

/-! ### Turns after a name was put into the cache -/

/-- All sweeps are by age. -/
def Aged (s : Store) : Prop := s.cache.ByAge s.settings.expiry

/-- Checking a name starts no sweep but by age. -/
theorem Aged.opened (h : s.Aged) (hunused : s.settings.unusedExpiry = 0) (name : String) :
    (s.opened name).cache.ByAge s.settings.expiry := by
  unfold Store.opened startSweeps
  split
  case isFalse => exact h
  case isTrue =>
    split
    case isTrue => exact h
    case isFalse =>
      -- the sweep by use is not started
      have hages := SweptCache.ByAge.startSweep h
      rw [← SweptCache.startSweep_zero (s.cache.startSweep .created s.settings.expiry).2 .unused,
        ← hunused] at hages
      exact hages

/-- All sweeps are by age after any turn. -/
theorem Aged.turn (h : s.Aged) (hunused : s.settings.unusedExpiry = 0) (hpaused : s.Paused n)
    (hsmooth : Smooth environment s.settings opens [one]) : (s.turn environment n one).Aged := by
  cases one with
  | replace disk => exact h
  | action a =>
    cases a with
    | call name operation =>
      obtain ⟨outcome, hcalled⟩ := hpaused.idle.called (hpaused.free n (Nat.le_refl n)) hsmooth
      unfold Aged SweptCache.ByAge
      rw [hcalled.tally.settings, hcalled.tally.sweeps]
      exact h.opened hunused name
    | advance duration => exact (h.runDue (Nat.le_add_right _ _)).1
    | jump duration =>
      exact (SweptCache.ByAge.runDue (c := { s.cache with now := s.cache.now + duration }) h
        (Nat.le_refl _)).1
    | reopen => exact fun sweep hsweep => by cases hsweep

/-- A plain turn leaves a name in the cache that is not deleted, until the expiry. -/
theorem Aged.stamp?_turn (h : s.Aged) (hexpiry : 0 < s.settings.expiry) (hpaused : s.Paused n)
    (hsmooth : Smooth environment s.settings opens [one]) (hplain : one.Plain)
    (hkept : one ≠ .action (.call name .delete)) (hstamp : s.stamp? name = some stamp)
    (hyoung : (s.turn environment n one).cache.now < stamp + s.settings.expiry) :
    (s.turn environment n one).stamp? name = some stamp := by
  -- a sweep leaves an entry that is young
  have hstays (c : SweptCache) (t : Nat) (hc : c.ByAge s.settings.expiry) (hle : c.now ≤ t)
      (hheld : c.stamp? name = some stamp) (ht : t < stamp + s.settings.expiry) :
      (c.runDue t).stamp? name = some stamp := by
    obtain ⟨e, he, rfl⟩ := Option.map_eq_some_iff.1 hheld
    rw [SweptCache.stamp?, (hc.runDue hle).2 name e he (by omega)]
    rfl
  cases one with
  | replace disk => exact hplain.elim
  | action a =>
    cases a with
    | call other operation =>
      obtain ⟨outcome, hcalled⟩ := hpaused.idle.called (hpaused.free n (Nat.le_refl n)) hsmooth
      by_cases hname : name = other
      case neg => exact (hcalled.tally.others name hname).trans hstamp
      subst hname
      rw [hcalled.tally.own, ← hstamp]
      cases operation with
      | create secret =>
        cases outcome with
        | ok answer => exact absurd rfl (hcalled.not_created hstamp answer)
        | error error => rfl
      | get => cases outcome <;> simp [Stage.stampAfter, hstamp]
      | delete => exact absurd rfl hkept
    | advance duration =>
      rw [(hpaused.turn hsmooth).2.2] at hyoung
      exact hstays s.cache _ h (Nat.le_add_right _ _) hstamp hyoung
    | jump duration =>
      rw [(hpaused.turn hsmooth).2.2] at hyoung
      exact hstays { s.cache with now := s.cache.now + duration } _ h (Nat.le_refl _) hstamp hyoung
    | reopen => exact hplain.elim

/-- A plain turn leaves a record that can be read, if there was one or none. -/
theorem Paused.readable_turn (h : s.Paused n) (hsmooth : Smooth environment s.settings opens [one])
    (hplain : one.Plain) (hreadable : s.Readable opens name) :
    (s.turn environment n one).Readable opens name := by
  cases one with
  | replace disk => exact hplain.elim
  | action a =>
    cases a with
    | call other operation =>
      obtain ⟨outcome, hcalled⟩ := h.idle.called (h.free n (Nat.le_refl n)) hsmooth
      exact hcalled.readable hreadable
    | advance duration | jump duration => exact hreadable
    | reopen => exact hplain.elim

/-! ### Turns since a name was put into the cache -/

/-- All sweeps are by age after any turns. -/
theorem Aged.turnAll (h : s.Aged) (hunused : s.settings.unusedExpiry = 0) (hpaused : s.Paused n)
    (hsmooth : Smooth environment s.settings opens turns) :
    (s.turnAll environment n turns).Aged := by
  refine (hpaused.turnAll_invariant (P := fun _ t => t.settings.unusedExpiry = 0 ∧ t.Aged)
    ⟨hunused, h⟩ (fun turns one ht hpaused hone => ?_) hsmooth).2
  refine ⟨?_, ht.2.turn ht.1 hpaused hone⟩
  rw [(hpaused.turn hone).2.1]
  exact ht.1

/-- Plain turns leave a name in the cache that they do not delete, until the expiry. -/
theorem Aged.stamp?_turnAll (h : s.Aged) (hexpiry : 0 < s.settings.expiry)
    (hunused : s.settings.unusedExpiry = 0) (hpaused : s.Paused n)
    (hsmooth : Smooth environment s.settings opens turns) (hplain : ∀ one ∈ turns, one.Plain)
    (hkept : .action (.call name .delete) ∉ turns) (hstamp : s.stamp? name = some stamp)
    (hyoung : (s.turnAll environment n turns).cache.now < stamp + s.settings.expiry) :
    (s.turnAll environment n turns).stamp? name = some stamp := by
  refine (hpaused.turnAll_invariant (P := fun turns t => t.settings = s.settings ∧ t.Aged ∧
    ((∀ one ∈ turns, one.Plain) → .action (.call name .delete) ∉ turns →
      t.cache.now < stamp + s.settings.expiry → t.stamp? name = some stamp))
    ⟨rfl, h, fun _ _ _ => hstamp⟩ ?_ hsmooth).2.2 hplain hkept hyoung
  intro turns one ht hpaused hone
  generalize s.turnAll environment n turns = t at *
  obtain ⟨hsettings, haged, hstays⟩ := ht
  obtain ⟨-, hsettings', hnow⟩ := hpaused.turn hone
  refine ⟨hsettings'.trans hsettings, haged.turn (by rw [hsettings, hunused]) hpaused hone,
    fun hplain hkept hyoung => ?_⟩
  have hbefore := hstays (fun other hother => hplain other (List.mem_append_left _ hother))
    (fun hother => hkept (List.mem_append_left _ hother)) (by omega)
  refine haged.stamp?_turn (by rw [hsettings]; exact hexpiry) hpaused hone
    (hplain one (by simp)) (fun heq => hkept (by simp [heq])) hbefore ?_
  rw [hsettings]
  exact hyoung

/-- Plain turns leave a record that can be read, if there was one or none. -/
theorem Paused.readable_turnAll (h : s.Paused n)
    (hsmooth : Smooth environment s.settings opens turns) (hplain : ∀ one ∈ turns, one.Plain)
    (hreadable : s.Readable opens name) : (s.turnAll environment n turns).Readable opens name := by
  refine h.turnAll_invariant (P := fun turns t => (∀ one ∈ turns, one.Plain) →
    t.Readable opens name) (fun _ => hreadable) (fun turns one ht hpaused hone hplain => ?_)
    hsmooth hplain
  exact hpaused.readable_turn hone (hplain one (by simp))
    (ht fun other hother => hplain other (List.mem_append_left _ hother))

/-- A stamp that is new is that of a turn that puts the name into the cache. -/
theorem Paused.putsAmong (h : s.Paused n) (hsmooth : Smooth environment s.settings opens turns)
    (hstamp : (s.turnAll environment n turns).stamp? name = some stamp) :
    s.stamp? name = some stamp ∨ s.PutsAmong environment n name turns := by
  refine (h.turnAll_invariant (P := fun turns t => t = s.turnAll environment n turns ∧
    (t.stamp? name = some stamp → s.stamp? name = some stamp ∨
      s.PutsAmong environment n name turns)) ⟨rfl, .inl⟩ ?_ hsmooth).2 hstamp
  rintro turns one ⟨-, ht⟩ hpaused hone
  refine ⟨(turnAll_concat s n turns one).symm, fun hstamp => ?_⟩
  rcases hpaused.puts hone hstamp with hbefore | hputs
  · rcases ht hbefore with hbefore | ⟨earlier, other, later, rfl, hputs⟩
    · exact .inl hbefore
    · exact .inr ⟨earlier, other, later ++ [one], by simp, hputs⟩
  · exact .inr ⟨turns, one, [], rfl, hputs⟩

/-! ### What a key costs -/

/-- Getting a key that is cached costs nothing. -/
theorem Paused.costs_nothing (h : s.Paused n)
    (hsmooth : Smooth environment s.settings opens [.action (.call name .get)])
    (hvalid : KeyName.Valid name) (hstamp : s.stamp? name = some stamp) :
    s.Costs environment n name 0 := by
  obtain ⟨outcome, hcalled⟩ := h.idle.called (h.free n (Nat.le_refl n)) hsmooth
  obtain ⟨⟨secret, rfl⟩, hcosts⟩ := hcalled.of_hit hvalid hstamp
  exact ⟨⟨secret, hcalled.ended⟩, hcosts⟩

/-- Getting a key that is not cached costs one decryption, and puts the key into the cache. -/
theorem Paused.costs_decryption (h : s.Paused n)
    (hsmooth : Smooth environment s.settings opens [.action (.call name .get)])
    (hvalid : KeyName.Valid name) (hkey : s.settings.masterKey ≠ none)
    (hmiss : s.stamp? name = none) (hpresent : s.record? name ≠ none)
    (hreadable : s.Readable opens name) :
    s.Costs environment n name 1 ∧ s.Puts environment n name (.action (.call name .get)) := by
  obtain ⟨outcome, hcalled⟩ := h.idle.called (h.free n (Nat.le_refl n)) hsmooth
  obtain ⟨⟨secret, rfl⟩, hcosts⟩ := hcalled.of_miss hvalid hkey hmiss hpresent hreadable
  exact ⟨⟨⟨secret, hcalled.ended⟩, hcosts⟩, .get (stamp?_eq_none_iff.1 hmiss) hcalled.ended⟩

/-- **What it costs to get a key.** Where nothing fails, a key was put into the cache in some turn,
and since then only the caller has done something: until the expiry, getting the key costs nothing
unless it was deleted; and when the expiry has been outlived since the key was put in for the last
time, it costs one decryption if the key is present, and puts the key into the cache again. -/
theorem get_costs {disk : Disk} {now : Nat} {before between : List Turn} {put : Turn} {s t : Store}
    (hdisk : ∀ directory, settings.backend = .files directory → disk.Hosts directory)
    (hexpiry : 0 < settings.expiry) (hunused : settings.unusedExpiry = 0)
    (hkey : settings.masterKey ≠ none)
    (hsmooth : Smooth environment settings opens
      (before ++ put :: between ++ [.action (.call name .get)]))
    (hs : (new settings disk now).turnAll environment 0 before = s)
    (hput : s.Puts environment before.length name put) (hplain : ∀ one ∈ between, one.Plain)
    (ht : (s.turn environment before.length put).turnAll environment (before.length + 1) between =
      t) :
    (.action (.call name .delete) ∉ between → t.cache.now < s.cache.now + settings.expiry →
        t.Costs environment (before.length + 1 + between.length) name 0) ∧
      (¬(s.turn environment before.length put).PutsAmong environment (before.length + 1) name
          between →
        t.record? name ≠ none → t.Outlived s.cache.now →
        2 * t.cache.now + Sweep.tolerance < Time.limit →
        t.Costs environment (before.length + 1 + between.length) name 1 ∧
          t.Puts environment (before.length + 1 + between.length) name
            (.action (.call name .get))) := by
  obtain ⟨hturns, hget⟩ := hsmooth.of_append
  obtain ⟨hbefore, hsince⟩ := hturns.of_append
  have hsplit : Smooth environment settings opens [put] ∧
      Smooth environment settings opens between := Smooth.of_append hsince
  have hnew := paused_new now hdisk
  have hages : (new settings disk now).Aged := fun sweep hsweep => by cases hsweep
  have hwhole : (new settings disk now).turnAll environment 0 (before ++ put :: between) = t := by
    rw [turnAll_append, hs, Nat.zero_add]
    exact ht
  have hyoung (stamp : Nat) (hclock : 2 * t.cache.now + Sweep.tolerance < Time.limit)
      (hstamp : t.stamp? name = some stamp) : ¬t.Outlived stamp := by
    rw [← hwhole] at hclock hstamp ⊢
    exact (punctual_new settings disk now).not_outlived hnew hexpiry hturns hclock hstamp
  -- up to the turn that puts the name in
  obtain ⟨hpaused, hsettings, -⟩ := hnew.turnAll hbefore
  have haged := hages.turnAll hunused hnew hbefore
  rw [hs, Nat.zero_add] at hpaused
  rw [hs] at hsettings haged
  subst hsettings
  obtain ⟨hvalid, hreadable, hstamp⟩ := hput.holds hpaused hsplit.1
  obtain ⟨hpaused', hsettings', -⟩ := hpaused.turn hsplit.1
  have haged' := haged.turn hunused hpaused hsplit.1
  -- the turns since then
  generalize s.turn environment before.length put = u at *
  rw [← hsettings'] at hexpiry hunused hkey hsplit hget ⊢
  obtain ⟨hlast, hsettings, -⟩ := hpaused'.turnAll hsplit.2
  rw [ht] at hlast hsettings
  rw [← hsettings] at hkey hget
  refine ⟨fun hkept hearly => ?_, fun hputs hpresent hold hclock =>
    hlast.costs_decryption hget hvalid hkey ?_ hpresent ?_⟩
  · have hfound : t.stamp? name = some s.cache.now := by
      rw [← ht] at hearly ⊢
      exact haged'.stamp?_turnAll hexpiry hunused hpaused' hsplit.2 hplain hkept hstamp hearly
    exact hlast.costs_nothing hget hvalid hfound
  · -- what is cached has the stamp of the turn that puts the name in, and is too old
    by_contra hcached
    obtain ⟨stamp, hfound⟩ := Option.ne_none_iff_exists'.1 hcached
    rcases hpaused'.putsAmong hsplit.2 (ht ▸ hfound) with hsame | hputs'
    · obtain rfl := Option.some.inj (hstamp.symm.trans hsame)
      exact hyoung _ hclock hfound hold
    · exact hputs hputs'
  · rw [← ht]
    exact hpaused'.readable_turnAll hsplit.2 hplain hreadable

end

namespace Sample

/-- A key is created. -/
def creation : Turn := .action (.call "n" (.create secret))

/-- The key is got once more, and not quite a second passes. -/
def soon : List Turn := [.action (.call "n" .get), .action (.advance (999 * Time.millisecond))]

/-- Two seconds pass. -/
def late : List Turn := [.action (.advance (2 * Time.second))]

theorem creates_n :
    (new swept disk 0).Puts answers 0 "n" creation ∧
      ((new swept disk 0).turn answers 0 creation).record? "n" ≠ none := by
  have hrecord : (new swept disk 0).record? "n" = none :=
    Option.map_eq_none_iff.1 (stores_none swept rfl 0 "n" (by decide))
  refine (paused_new 0 hosts_disk).creates (smooth_answers (by simp) (by simp)) (by decide) ?_
  rw [slot, hrecord]
  rfl

theorem smooth_creation (turns : List Turn)
    (hcreates : ∀ name x, .action (.call name (.create x)) ∉ turns)
    (hdisks : ∀ disk, .replace disk ∉ turns) :
    Smooth answers swept opens ([] ++ creation :: turns ++ [.action (.call "n" .get)]) :=
  smooth_answers (by simp_all [creation]) (by simp_all [creation])

end Sample

/-- Within a second it costs nothing to get a key, and after two it costs one decryption. -/
theorem get_costs_soonAndLate :
    ((new Sample.swept Sample.disk 0).turnAll Sample.answers 0
        (Sample.creation :: Sample.soon)).Costs Sample.answers 3 "n" 0 ∧
      ((new Sample.swept Sample.disk 0).turnAll Sample.answers 0
        (Sample.creation :: Sample.late)).Costs Sample.answers 2 "n" 1 := by
  have hnew := paused_new 0 Sample.hosts_disk
  constructor
  · have hsmooth := Sample.smooth_creation Sample.soon (by simp [Sample.soon])
      (by simp [Sample.soon])
    obtain ⟨-, -, hnow⟩ := hnew.turnAll hsmooth.of_append.1
    refine (get_costs (s := new Sample.swept Sample.disk 0)
      (t := (new Sample.swept Sample.disk 0).turnAll Sample.answers 0
        (Sample.creation :: Sample.soon))
      Sample.hosts_disk (by decide) rfl (by decide) hsmooth rfl Sample.creates_n.1
      (by simp [Sample.soon, Turn.Plain]) (turnAll_cons _ _ _ _).symm).1 (by simp [Sample.soon]) ?_
    rw [← List.nil_append (Sample.creation :: Sample.soon), hnow]
    decide
  · have hsmooth := Sample.smooth_creation Sample.late (by simp [Sample.late])
      (by simp [Sample.late])
    obtain ⟨-, hsettings, hnow⟩ := hnew.turnAll hsmooth.of_append.1
    refine ((get_costs (s := new Sample.swept Sample.disk 0)
      (t := (new Sample.swept Sample.disk 0).turnAll Sample.answers 0
        (Sample.creation :: Sample.late))
      Sample.hosts_disk (by decide) rfl (by decide) hsmooth rfl Sample.creates_n.1
      (by simp [Sample.late, Turn.Plain]) (turnAll_cons _ _ _ _).symm).2 ?_ ?_ ?_ ?_).1
    · -- time that passes puts nothing into the cache
      rintro ⟨earlier, one, later, hturn, hputs⟩
      have hone : one ∈ Sample.late := by rw [hturn]; simp
      obtain rfl := List.mem_singleton.1 hone
      cases hputs
    · rw [turnAll_cons, Sample.late, turnAll_cons, turnAll, record?_advance]
      exact Sample.creates_n.2
    · rw [Outlived, ← List.nil_append (Sample.creation :: Sample.late), hnow, hsettings]
      decide
    · rw [← List.nil_append (Sample.creation :: Sample.late), hnow]
      decide

end Keyring.Store
