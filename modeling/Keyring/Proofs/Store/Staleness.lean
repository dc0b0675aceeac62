import Keyring.Proofs.Store.Turns

/-!
# How old an answer may be

Others may change a file while its secret is cached, and the cache goes on giving the old one until
the sweep by age has removed it. So what a key store answers is what the file of the name unsealed
to not long ago: less than two expiries, as long as it takes the sweep to find an entry too old.
Timers fire at whole milliseconds, so at an instant between two of them the part of a millisecond
that has passed is added.

- `Unseals`, `Unsealed`, `Changed`: what a file unseals to, what it once did, and changes by others;
- `Paused.origin`: where what is cached after a turn comes from;
- `Founded`, `Paused.founded`: what is cached was in the file, and still is unless others changed
  it;
- `get_fresh`: how old an answer may be, and when it is what the file unseals to.
-/

namespace Keyring.Store

section

variable (environment : Environment) (opens : Ciphertext → Option Secret)

/-- The record of a name unseals to a secret. -/
def Unseals (s : Store) (name : String) (secret : Secret) : Prop :=
  (s.record? name).bind (secretOf s.settings opens) = some secret

/-- At some time in a store's turns, the record of a name unsealed to a secret. -/
def Unsealed (s : Store) (turns : List Turn) (name : String) (secret : Secret) (time : Nat) :
    Prop :=
  ∃ earlier, earlier <+: turns ∧ (s.turnAll environment 0 earlier).cache.now = time ∧
    (s.turnAll environment 0 earlier).Unseals opens name secret

/-- At some time in a store's turns, others change the record of a name. -/
def Changed (s : Store) (turns : List Turn) (name : String) (time : Nat) : Prop :=
  ∃ before disk after, turns = before ++ .replace disk :: after ∧
    (s.turnAll environment 0 before).cache.now = time ∧
    (s.turnAll environment 0 (before ++ [.replace disk])).record? name ≠
      (s.turnAll environment 0 before).record? name

/-- What is cached after some turns was in the file when it was put in, and still is unless others
have changed the file since. -/
def Founded (s : Store) (turns : List Turn) (t : Store) : Prop :=
  ∀ name secret stamp, t.cached? name = some secret → t.stamp? name = some stamp →
    stamp ≤ t.cache.now ∧ s.Unsealed environment opens turns name secret stamp ∧
      (t.Unseals opens name secret ∨ ∃ time, stamp ≤ time ∧ s.Changed environment turns name time)

/-- What a call after some turns gives is not old: the record of the name unsealed to it lately, and
still does if others have not changed the record lately. -/
structure Fresh (s : Store) (turns : List Turn) (t : Store) (name : String) (outcome : Outcome) :
    Prop where
  lately : ∀ secret, outcome = .ok (.secret secret) →
    ∃ time, s.Unsealed environment opens turns name secret time ∧ time ≤ t.cache.now ∧
      ¬t.Outlived time
  present : (∀ time, s.Changed environment turns name time → t.Outlived time) →
    ∃ now, Finishes t.settings opens name ⟨t.record? name, none⟩ .get outcome now

end

section

variable {environment : Environment} {settings : Settings} {opens : Ciphertext → Option Secret}
  {s t : Store} {n stamp time : Nat} {name : String} {operation : Operation} {outcome : Outcome}
  {secret : Secret} {turns : List Turn} {one : Turn}

theorem Unsealed.concat (h : s.Unsealed environment opens turns name secret time) (one : Turn) :
    s.Unsealed environment opens (turns ++ [one]) name secret time := by
  obtain ⟨earlier, hprefix, h⟩ := h
  exact ⟨earlier, hprefix.trans (List.prefix_append turns [one]), h⟩

theorem Changed.concat (h : s.Changed environment turns name time) (one : Turn) :
    s.Changed environment (turns ++ [one]) name time := by
  obtain ⟨before, disk, after, rfl, h⟩ := h
  exact ⟨before, disk, after ++ [one], by simp, h⟩

/-- What is found in a cache has a stamp. -/
theorem exists_stamp?_of_cached? (h : s.cached? name = some secret) :
    ∃ stamp, s.stamp? name = some stamp :=
  Option.ne_none_iff_exists'.1 (mt stamp?_eq_none_iff.1 (by simp [h]))

/-! ### One turn -/

/-- What is cached under its name after a call was cached before, or is what the record unseals to
and was put in at the moment. -/
theorem Called.origin (h : Called opens s t n name operation outcome)
    (hcached : t.cached? name = some secret) (hstamp : t.stamp? name = some stamp) :
    (stamp = s.cache.now ∧ t.Unseals opens name secret) ∨
      (s.stamp? name = some stamp ∧ t.slot name = s.slot name) := by
  have hown := h.tally.own
  have hfinishes := h.finishes
  simp only [hstamp, Stage.stampAfter] at hown
  unfold Finishes at hfinishes
  split at hfinishes
  case h_1 error herror =>
    -- nothing is done under a name that is not valid
    have hinvalid : ¬KeyName.Valid name := fun hvalid => by
      cases (KeyName.validate_eq_ok_iff.2 hvalid).symm.trans herror
    obtain ⟨rfl, hslot⟩ := hfinishes
    refine .inr ⟨?_, hslot⟩
    cases operation <;> simp_all
  case h_2 =>
    unfold Unseals
    rw [h.tally.settings]
    have hheld : (t.slot name).cached = some secret := hcached
    have hrecord : (t.slot name).record = t.record? name := rfl
    generalize hslot : t.slot name = now at hfinishes hheld hrecord
    cases hfinishes with
    | taken | stored | nothing | unreadable => exact .inr ⟨hown.symm, rfl⟩
    | hit hbefore =>
      obtain ⟨old, hold⟩ := exists_stamp?_of_cached? hbefore
      rw [hold] at hown
      exact .inr ⟨hold.trans hown.symm, rfl⟩
    | created hbefore hseals =>
      obtain rfl := Option.some.inj hheld
      exact .inl ⟨Option.some.inj hown, by rw [← hrecord]; exact hseals.secretOf_eq⟩
    | read hbefore hopens =>
      have hnone : s.stamp? name = none := stamp?_eq_none_iff.2 (congrArg Slot.cached hbefore)
      rw [hnone] at hown
      obtain rfl := Option.some.inj hheld
      exact .inl ⟨Option.some.inj hown, by rw [← hrecord]; exact hopens⟩
    | deleted => cases hheld

/-- What is cached after a turn was cached before, or is what the record unseals to and was put in
at the moment. Only others change the record of what is cached. -/
theorem Paused.origin (h : s.Paused n) (hsmooth : Smooth environment s.settings opens [one])
    (hcached : (s.turn environment n one).cached? name = some secret)
    (hstamp : (s.turn environment n one).stamp? name = some stamp) :
    (stamp = (s.turn environment n one).cache.now ∧
        (s.turn environment n one).Unseals opens name secret) ∨
      (s.cached? name = some secret ∧ s.stamp? name = some stamp ∧
        ((s.turn environment n one).record? name = s.record? name ∨
          ∃ disk, one = .replace disk)) := by
  cases one with
  | replace disk => exact .inr ⟨hcached, hstamp, .inr ⟨disk, rfl⟩⟩
  | action a =>
    cases a with
    | call called operation =>
      obtain ⟨outcome, hcalled⟩ := h.idle.called (h.free n (Nat.le_refl n)) hsmooth
      by_cases hname : name = called
      · subst hname
        rcases hcalled.origin hcached hstamp with ⟨hnow, hunseals⟩ | ⟨hold, hslot⟩
        · exact .inl ⟨hnow.trans hcalled.tally.now.symm, hunseals⟩
        · exact .inr ⟨(congrArg Slot.cached hslot).symm.trans hcached, hold,
            .inl (congrArg Slot.record hslot)⟩
      · have hslot := hcalled.apart.slot name hname
        exact .inr ⟨(congrArg Slot.cached hslot).symm.trans hcached,
          (hcalled.tally.others name hname).symm.trans hstamp, .inl (congrArg Slot.record hslot)⟩
    | advance duration =>
      have hcached' := (s.cache.fades_advance duration) name secret hcached
      exact .inr ⟨hcached', SweptCache.stamp?_of_advance hstamp, .inl rfl⟩
    | jump duration =>
      have hcached' := (s.cache.fades_jump duration) name secret hcached
      exact .inr ⟨hcached', SweptCache.stamp?_of_jump hstamp, .inl rfl⟩
    | reopen => cases hcached

/-! ### All turns -/

/-- A turn keeps what is cached founded on the files. -/
theorem Founded.turn (h : s.Founded environment opens turns (s.turnAll environment 0 turns))
    (hpaused : (s.turnAll environment 0 turns).Paused n)
    (hsmooth : Smooth environment (s.turnAll environment 0 turns).settings opens [one])
    (hconcat : s.turnAll environment 0 (turns ++ [one]) =
      (s.turnAll environment 0 turns).turn environment n one) :
    s.Founded environment opens (turns ++ [one]) (s.turnAll environment 0 (turns ++ [one])) := by
  obtain ⟨-, hsettings, hnow⟩ := hpaused.turn hsmooth
  intro name secret stamp hcached hstamp
  rw [hconcat] at hcached hstamp
  rcases hpaused.origin hsmooth hcached hstamp with
    ⟨rfl, hunseals⟩ | ⟨hcached', hstamp', hrecord⟩
  · rw [← hconcat] at hunseals ⊢
    exact ⟨Nat.le_refl _, ⟨turns ++ [one], List.prefix_refl _, rfl, hunseals⟩, .inl hunseals⟩
  · obtain ⟨hpast, hunsealed, hsince⟩ := h name secret stamp hcached' hstamp'
    refine ⟨?_, hunsealed.concat one, ?_⟩
    · rw [hconcat, hnow]
      exact Nat.le_add_right_of_le hpast
    rcases hsince with hunseals | ⟨time, htime, hchanged⟩
    case inr => exact .inr ⟨time, htime, hchanged.concat one⟩
    by_cases hsame : (s.turnAll environment 0 (turns ++ [one])).record? name =
        (s.turnAll environment 0 turns).record? name
    · rw [Unseals, hsame, hconcat, hsettings]
      exact .inl hunseals
    · -- others have changed the record in this turn
      rcases hrecord with hrecord | ⟨disk, rfl⟩
      · exact absurd (hconcat ▸ hrecord) hsame
      · exact .inr ⟨_, hpast, turns, disk, [], rfl, rfl, hsame⟩

/-- What is cached was in the file, and still is unless others have changed it since. -/
theorem Paused.founded (h : s.Paused 0) (hempty : ∀ name, s.cached? name = none)
    (hsmooth : Smooth environment s.settings opens turns) :
    s.Founded environment opens turns (s.turnAll environment 0 turns) := by
  refine (h.turnAll_invariant (P := fun turns t => t = s.turnAll environment 0 turns ∧
    s.Founded environment opens turns t) ⟨rfl, fun name secret stamp hcached => ?_⟩
    (fun turns one ht hpaused hone => ?_) hsmooth).2
  · cases (hempty name).symm.trans hcached
  · have hconcat : s.turnAll environment 0 (turns ++ [one]) = _ := turnAll_concat s 0 turns one
    rw [← hconcat]
    exact ⟨rfl, ht.2.turn hpaused hone hconcat⟩

/-! ### The next call -/

/-- The record of the present unseals to its secret at present. -/
theorem unsealed_now (ht : s.turnAll environment 0 turns = t)
    (h : t.Unseals opens name secret) :
    s.Unsealed environment opens turns name secret t.cache.now :=
  ⟨turns, List.prefix_refl _, by rw [ht], by rw [ht]; exact h⟩

/-- The present has not been outlived. -/
theorem not_outlived_now (hexpiry : 0 < t.settings.expiry) : ¬t.Outlived t.cache.now := by
  rw [Outlived]
  omega

/-- A secret that a call gives though it is not cached is what the record unseals to. -/
theorem Finishes.unseals {record : Option (List UInt8)} {now : Slot}
    (h : Finishes settings opens name ⟨record, none⟩ .get (.ok (.secret secret)) now) :
    record.bind (secretOf settings opens) = some secret := by
  unfold Finishes at h
  split at h
  · cases h.1
  · cases h with
    | hit hcached => cases hcached
    | read hbefore hopens =>
      obtain rfl := congrArg Slot.record hbefore
      exact hopens

/-- A call under a valid name gives the secret that is cached. -/
theorem Ends.eq_of_cached {before now : Slot} (h : Ends settings opens before .get outcome now)
    (hcached : before.cached = some secret) : outcome = .ok (.secret secret) := by
  cases h with
  | hit hheld =>
    obtain rfl := Option.some.inj (hheld.symm.trans hcached)
    rfl
  | nothing hbefore | read hbefore _ | unreadable hbefore _ _ _ =>
    cases (congrArg Slot.cached hbefore).symm.trans hcached

/-- Where what is cached is founded on the files and not too old, a call does not give what is
old. -/
theorem Founded.fresh {u : Store} (h : s.Founded environment opens turns t)
    (ht : s.turnAll environment 0 turns = t) (hexpiry : 0 < t.settings.expiry)
    (hyoung : ∀ stamp, t.stamp? name = some stamp → ¬t.Outlived stamp)
    (hcalled : Called opens t u n name .get outcome) :
    s.Fresh environment opens turns t name outcome := by
  have hfinishes := hcalled.finishes
  cases hcached : t.cached? name with
  | none =>
    rw [slot, hcached] at hfinishes
    refine ⟨fun secret hok => ?_, fun _ => ⟨_, hfinishes⟩⟩
    subst hok
    exact ⟨_, unsealed_now ht hfinishes.unseals, Nat.le_refl _, not_outlived_now hexpiry⟩
  | some held =>
    obtain ⟨stamp, hstamp⟩ := exists_stamp?_of_cached? hcached
    obtain ⟨hpast, hunsealed, hsince⟩ := h name held stamp hcached hstamp
    unfold Finishes at hfinishes
    split at hfinishes
    case h_1 error herror =>
      obtain ⟨rfl, -⟩ := hfinishes
      refine ⟨fun secret hok => (by cases hok), fun _ => ⟨⟨t.record? name, none⟩, ?_⟩⟩
      rw [Finishes, herror]
      exact ⟨rfl, rfl⟩
    case h_2 hok =>
      obtain rfl := hfinishes.eq_of_cached hcached
      refine ⟨fun secret heq => ?_, fun hchanges => ?_⟩
      · cases heq
        exact ⟨stamp, hunsealed, hpast, hyoung stamp hstamp⟩
      · -- a change since would not be old enough
        rcases hsince with hunseals | ⟨time, htime, hchanged⟩
        · obtain ⟨record, hrecord, hopens⟩ := Option.bind_eq_some_iff.1 hunseals
          rw [hrecord]
          exact ⟨_, .of_ends (KeyName.validate_eq_ok_iff.1 hok) (.read rfl hopens)⟩
        · have hold : t.Outlived time := hchanges time hchanged
          exact absurd (Nat.le_trans (by omega) hold) (hyoung stamp hstamp)

/-- **An answer is not old.** Where the files of a key store are also changed by others, and nothing
fails, every secret that it gives is one that the file of the name unsealed to less than two
expiries ago; and if others have not changed the file for so long, then the answer is what the file
unseals to. -/
theorem get_fresh {disk : Disk} {now : Nat}
    (hdisk : ∀ directory, settings.backend = .files directory → disk.Hosts directory)
    (hexpiry : 0 < settings.expiry)
    (hsmooth : Smooth environment settings opens (turns ++ [.action (.call name .get)]))
    (hclock : 2 * ((new settings disk now).turnAll environment 0 turns).cache.now +
      Sweep.tolerance < Time.limit) :
    ∃ outcome, ((new settings disk now).turnAll environment 0
        (turns ++ [.action (.call name .get)])).outcome? turns.length = some outcome ∧
      (new settings disk now).Fresh environment opens turns
        ((new settings disk now).turnAll environment 0 turns) name outcome := by
  obtain ⟨hbefore, hone⟩ := hsmooth.of_append
  have hnew := paused_new now hdisk
  obtain ⟨hpaused, hsettings, -⟩ := hnew.turnAll hbefore
  obtain ⟨outcome, hcalled⟩ :=
    hpaused.idle.called (hpaused.free _ (Nat.le_refl _)) (by rw [hsettings]; exact hone)
  refine ⟨outcome, ?_, (hnew.founded (fun _ => rfl) hbefore).fresh rfl ?_ (fun stamp hstamp =>
    (punctual_new _ _ _).not_outlived hnew hexpiry hbefore hclock hstamp) hcalled⟩
  · rw [turnAll_concat]
    simpa only [Nat.zero_add] using hcalled.ended
  · rw [hsettings]
    exact hexpiry

end

namespace Sample

/-- The settings of a store of files whose entries expire after a second. -/
def swept : Settings := ⟨.files "keys", Time.second, 0, some "k", .own⟩

theorem hosts_disk (directory : String) (hfiles : swept.backend = .files directory) :
    disk.Hosts directory := by
  obtain rfl := Backend.files.inj hfiles
  exact .there disk_serves

/-- Nothing fails in turns in which keys are created of the one secret, and others put the empty
directory in place. -/
theorem smooth_answers {turns : List Turn}
    (hcreates : ∀ name x, .action (.call name (.create x)) ∈ turns → x = secret)
    (hdisks : ∀ other, .replace other ∈ turns → other = disk) :
    Smooth answers swept opens turns := by
  refine ⟨answers_faithful swept fun name x hmem => ?_, fun other hmem => ?_⟩
  · obtain ⟨one, hone, haction⟩ := List.mem_filterMap.1 hmem
    cases one with
    | action a => exact hcreates name x (Option.some.inj haction ▸ hone)
    | replace other => cases haction
  · rw [hdisks other hmem]
    exact hosts_disk

/-- A key is created, its file is taken away, and not quite a second passes. -/
def takenAway : List Turn :=
  [.action (.call "n" (.create secret)), .replace disk, .action (.advance (999 * Time.millisecond))]

end Sample

/-- What is given when a file has gone is not old. -/
theorem get_fresh_takenAway :
    ∃ outcome, ((new Sample.swept Sample.disk 0).turnAll Sample.answers 0
        (Sample.takenAway ++ [.action (.call "n" .get)])).outcome? 3 = some outcome ∧
      (new Sample.swept Sample.disk 0).Fresh Sample.answers Sample.opens Sample.takenAway
        ((new Sample.swept Sample.disk 0).turnAll Sample.answers 0 Sample.takenAway)
        "n" outcome := by
  have hsmooth : Smooth Sample.answers Sample.swept Sample.opens
      (Sample.takenAway ++ [.action (.call "n" .get)]) :=
    Sample.smooth_answers (by simp [Sample.takenAway]) (by simp [Sample.takenAway])
  refine get_fresh Sample.hosts_disk (by decide) hsmooth ?_
  rw [((paused_new 0 Sample.hosts_disk).turnAll hsmooth.of_append.1).2.2]
  decide

end Keyring.Store
