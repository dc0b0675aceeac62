import Keyring.Proofs.Store.Records

/-!
# A store in memory stands for a map

A key store in memory stands for a map from names to secrets, although the cache, the table and the
calls in progress each know a part of it only, and a deleted key is gone from the table before it is
gone from the cache. A call does its operation to the map at one of its steps:

* a call that creates a key when it finds the name cached or taken, or when it puts the record into
  the table;
* a call that reads a key when it finds the name cached, finds no record, or puts the secret that it
  read into the cache;
* a call that deletes a key when it removes the name from the cache, which comes after the removal
  of the record.

`Stands` says what is held under a name for the callers, and `Simulates.advances` that each step
does nothing to the map or what the operation of its call does to it.
-/

namespace Keyring.Store

/-- Secrets by name: what a key store is for its callers. -/
abbrev SecretMap := String → Option Secret

/-- What an operation gives and does, if it is done at once. -/
def SecretMap.perform (m : SecretMap) (name : String) (operation : Operation) :
    Outcome × SecretMap :=
  match KeyName.validate name with
  | .error error => (.error error, m)
  | .ok () =>
    match operation, m name with
    | .create secret, none => (.ok .done, Function.update m name (some secret))
    | .create _, some _ => (.error .keyExists, m)
    | .get, none => (.error .keyNotFound, m)
    | .get, some secret => (.ok (.secret secret), m)
    | .delete, _ => (.ok .done, Function.update m name none)

/-- An outcome that says that the key management system failed. -/
def Failed : Outcome → Prop
  | .error .keySealed | .error (.internal _) => True
  | _ => False

/-- An answer to a call at a stage that says that the key management system failed. -/
def Reply.Refuses (reply : Reply) : Stage → Prop
  | .encrypt _ => ∃ fault, reply.encrypted = .error fault
  | .work (.decrypt _) => ∃ fault, reply.decrypted = .error fault
  | _ => False

/-- The outcome that a call at a stage is bound to have. -/
def Stage.verdict? : Stage → Option Outcome
  | .work (.cacheCreated _) => some (.ok .done)
  | .leave outcome | .finished outcome => some outcome
  | _ => none

/-- A call is about to remove a name from the cache. -/
def Purging (s : Store) (name : String) : Prop :=
  ∃ id call outcome, s.calls.find? id = some call ∧ call.name = name ∧
    call.stage = .work (.purge outcome)

/-- What some work under the lock expects to be held under its name. -/
def Work.Expects (opens : Ciphertext → Option Secret) (record? : Option (List UInt8))
    (held : Option Secret) : Work → Prop
  | .cacheCreated secret | .cacheRead secret => held = some secret
  | .decrypt c => ∀ secret, opens c = some secret → held = some secret
  | .purge outcome => record? = none ∧ outcome = .ok .done
  | _ => True

/-- A store holds something under a name for its callers. -/
structure Stands (opens : Ciphertext → Option Secret) (s : Store) (name : String)
    (held : Option Secret) : Prop where
  /-- What is cached is held. -/
  cached : ∀ secret, s.cached? name = some secret → held = some secret
  /-- A record unseals to what is held. -/
  stored : ∀ record, s.record? name = some record →
    ∃ secret, held = some secret ∧ secretOf s.settings opens record = some secret
  /-- Without a record nothing is held, unless the name is about to leave the cache. -/
  missing : s.record? name = none → held = none ∨ s.Purging name
  /-- Calls at work find what they expect. -/
  works : ∀ id call work, s.calls.find? id = some call → call.name = name →
    call.stage = .work work → work.Expects opens (s.record? name) held

/-- A store stands for a map. -/
def Simulates (opens : Ciphertext → Option Secret) (s : Store) (m : SecretMap) : Prop :=
  ∀ name, s.Stands opens name (m name)

/-- A step of a call does nothing to a map, or fails because it is refused, or does its
operation. -/
inductive Effect (m : SecretMap) (call : Call) (reply : Reply) (stage : Stage) :
    SecretMap → Prop where
  | quiet (h : stage.verdict? = call.stage.verdict?) : Effect m call reply stage m
  | fails {outcome : Outcome} (hnone : call.stage.verdict? = none)
      (h : stage.verdict? = some outcome) (hfailed : Failed outcome)
      (hrefuses : reply.Refuses call.stage) : Effect m call reply stage m
  | performs {outcome : Outcome} {m' : SecretMap} (hnone : call.stage.verdict? = none)
      (h : stage.verdict? = some outcome)
      (hperform : m.perform call.name call.operation = (outcome, m')) :
    Effect m call reply stage m'

variable {opens : Ciphertext → Option Secret} {s t : Store} {id : Nat} {name : String}
  {reply : Reply} {call : Call} {stage : Stage} {change : Change} {held held' : Option Secret}
  {m : SecretMap}

/-- What is held under the name of a call that makes a step is not touched under other names. -/
theorem Stands.other (h : s.Stands opens name held)
    (hcall : s.calls.find? id = some call)
    (hadv : s.Advances t id call reply change stage) (hne : name ≠ call.name) :
    t.Stands opens name held where
  cached secret hsecret := by
    rw [hadv.cached, if_neg hne] at hsecret
    exact h.cached secret hsecret
  stored record hrecord := by
    rw [hadv.record, if_neg hne] at hrecord
    rw [hadv.settings]
    exact h.stored record hrecord
  missing hnone := by
    rw [hadv.record, if_neg hne] at hnone
    refine (h.missing hnone).imp_right ?_
    rintro ⟨j, other, outcome, hother, rfl, hpurge⟩
    have hj : j ≠ id := by
      rintro rfl
      rw [hcall] at hother
      exact hne (congrArg Call.name (Option.some.inj hother)).symm
    exact ⟨j, other, outcome, by rwa [hadv.calls, if_neg hj], rfl, hpurge⟩
  works := by
    rw [hadv.record, if_neg hne]
    intro j other w hother
    revert w
    refine hadv.forall_calls (P := fun _ c => ∀ w, c.name = name → c.stage = .work w →
      w.Expects opens (s.record? name) held) (fun w heq => absurd heq.symm hne)
      (fun k c _ hc w => h.works k c w hc) j other hother

/-- A step that leaves the record and what is held goes on standing for it. -/
theorem Stands.keep (h : s.Stands opens call.name held) (hcall : s.calls.find? id = some call)
    (hadv : s.Advances t id call reply change stage)
    (hcached : ∀ secret, change.cachedAfter (s.cached? call.name) = some secret →
      held = some secret)
    (hrecord : change.recordAfter (s.record? call.name) = s.record? call.name)
    (hpurge : ∀ outcome, call.stage ≠ .work (.purge outcome))
    (hself : ∀ w, stage = .work w → w.Expects opens (s.record? call.name) held) :
    t.Stands opens call.name held where
  cached secret hsecret := hcached secret (by rwa [hadv.cached, if_pos rfl] at hsecret)
  stored record hrecord' := by
    rw [hadv.record, if_pos rfl, hrecord] at hrecord'
    rw [hadv.settings]
    exact h.stored record hrecord'
  missing hnone := by
    rw [hadv.record, if_pos rfl, hrecord] at hnone
    refine (h.missing hnone).imp_right ?_
    rintro ⟨j, other, outcome, hother, hname, hstage⟩
    -- the call that is about to remove the name from the cache is another one
    have hj : j ≠ id := by
      rintro rfl
      rw [hcall] at hother
      obtain rfl := Option.some.inj hother
      exact hpurge _ hstage
    exact ⟨j, other, outcome, by rwa [hadv.calls, if_neg hj], hname, hstage⟩
  works := by
    rw [hadv.record, if_pos rfl, hrecord]
    intro j other w hother
    revert w
    exact hadv.forall_calls (P := fun _ c => ∀ w, c.name = call.name → c.stage = .work w →
      w.Expects opens (s.record? call.name) held) (fun w _ => hself w)
      (fun k c _ hc w => h.works k c w hc) j other hother

/-- A step of a call that has its lock alone changes what is held for no other call. -/
theorem Stands.replace (hsound : s.Sound) (hcall : s.calls.find? id = some call) {work : Work}
    (hwork : call.stage = .work work) (hmode : work.mode = .exclusive)
    (hadv : s.Advances t id call reply change stage)
    (hcached : ∀ secret, change.cachedAfter (s.cached? call.name) = some secret →
      held = some secret)
    (hrecord : change.recordAfter (s.record? call.name) = none)
    (hmissing : held = none ∨ ∃ outcome, stage = .work (.purge outcome))
    (hself : ∀ w, stage = .work w → w.Expects opens none held) :
    t.Stands opens call.name held where
  cached secret hsecret := hcached secret (by rwa [hadv.cached, if_pos rfl] at hsecret)
  stored record hrecord' := by
    rw [hadv.record, if_pos rfl, hrecord] at hrecord'
    cases hrecord'
  missing _ := by
    refine hmissing.imp_right ?_
    rintro ⟨outcome, hpurge⟩
    exact ⟨id, { call with stage }, outcome, by rw [hadv.calls, if_pos rfl], rfl, hpurge⟩
  works := by
    rw [hadv.record, if_pos rfl, hrecord]
    intro j other w hother
    revert w
    refine hadv.forall_calls (P := fun _ c => ∀ w, c.name = call.name → c.stage = .work w →
      w.Expects opens none held) (fun w _ => hself w) (fun k c hne hc w hname hstage => ?_) j other
      hother
    -- no other call of this name is at work
    have hatWork : c.stage.AtWork := by rw [hstage]; trivial
    exact absurd (hsound.alone hcall hc hwork hmode hatWork hname.symm).symm hne

/-- Putting a record into the table, under a name that is not held. -/
theorem Stands.insert (hsound : s.Sound) (h : s.Stands opens call.name none)
    (hcall : s.calls.find? id = some call) {secret : Secret} {record : List UInt8}
    (hwork : call.stage = .work (.insert secret record))
    (hadv : s.Advances t id call reply (.record record) (.work (.cacheCreated secret)))
    (hsecret : secretOf s.settings opens record = some secret) :
    t.Stands opens call.name (some secret) where
  cached x hx := by
    rw [hadv.cached, if_pos rfl] at hx
    cases h.cached x hx
  stored r hr := by
    rw [hadv.record, if_pos rfl] at hr
    obtain rfl := Option.some.inj hr
    rw [hadv.settings]
    exact ⟨secret, rfl, hsecret⟩
  missing hnone := by
    rw [hadv.record, if_pos rfl] at hnone
    cases hnone
  works := by
    intro j other w hother
    revert w
    refine hadv.forall_calls (P := fun _ c => ∀ w, c.name = call.name → c.stage = .work w →
      w.Expects opens (t.record? call.name) (some secret)) ?_ (fun k c hne hc w hname hstage => ?_)
      j other hother
    · rintro w - hw
      obtain rfl := Stage.work.inj hw
      rfl
    · have hexpects := h.works k c w hc hname hstage
      cases w with
      | cacheCreated x => cases hexpects
      | cacheRead x => cases hexpects
      | decrypt c =>
        intro x hx
        cases hexpects x hx
      | purge outcome =>
        -- a call that purges the name would have its lock alone
        have hatWork : call.stage.AtWork := by rw [hwork]; trivial
        exact absurd (hsound.alone hc hcall hstage rfl hatWork hname) hne
      | _ => trivial

/-- Without a record, nothing is held under the name of a call at work that shares its lock. -/
theorem Stands.eq_none (hsound : s.Sound) (h : s.Stands opens call.name held)
    (hcall : s.calls.find? id = some call) {work : Work} (hwork : call.stage = .work work)
    (hmode : work.mode = .shared) (hnone : s.record? call.name = none) : held = none := by
  refine (h.missing hnone).resolve_right ?_
  -- a call that is about to purge the name would have its lock alone
  rintro ⟨j, other, outcome, hother, hname, hpurge⟩
  have hatWork : call.stage.AtWork := by rw [hwork]; trivial
  obtain rfl := hsound.alone hother hcall hpurge rfl hatWork hname
  rw [hother] at hcall
  obtain rfl := Option.some.inj hcall
  obtain rfl := Stage.work.inj (hpurge.symm.trans hwork)
  cases hmode

/-- The work that a call begins with expects nothing. -/
theorem expects_of_first {work : Work} {record? : Option (List UInt8)} (h : work.First) :
    work.Expects opens record? held := by
  cases work <;> trivial

/-- A call that begins its work has no verdict yet. -/
theorem verdict?_of_first {work : Work} (h : work.First) : (Stage.work work).verdict? = none := by
  cases work <;> first | rfl | exact h.elim

/-! ### The operations on a map -/

/-- What operations on valid names give and do. -/
theorem SecretMap.perform_of_valid (hvalid : KeyName.Valid name) (m : SecretMap)
    (operation : Operation) :
    m.perform name operation =
      match operation, m name with
      | .create secret, none => (.ok .done, Function.update m name (some secret))
      | .create _, some _ => (.error .keyExists, m)
      | .get, none => (.error .keyNotFound, m)
      | .get, some secret => (.ok (.secret secret), m)
      | .delete, _ => (.ok .done, Function.update m name none) := by
  unfold SecretMap.perform
  rw [KeyName.validate_eq_ok_iff.2 hvalid]

/-- No operation fails at once because of the key management system. -/
theorem SecretMap.not_failed_perform (m : SecretMap) (name : String) (operation : Operation) :
    ¬Failed (m.perform name operation).1 := by
  unfold SecretMap.perform KeyName.validate
  cases KeyName.fault? name with
  | some fault => exact id
  | none => cases operation <;> dsimp only <;> cases m name <;> exact id

/-- Each step of a call to a store in memory does nothing to the map that the store stands for, or
is refused, or does the operation of the call. -/
theorem Stands.effect (hmemory : s.settings.backend = .memory) (hsound : s.Sound)
    (hcarrying : Carrying opens s) (h : s.Stands opens call.name (m call.name))
    (hcall : s.calls.find? id = some call) (hhonest : reply.Honest opens call.stage)
    (hadv : s.Advances t id call reply change stage) :
    ∃ held, t.Stands opens call.name held ∧
      Effect m call reply stage (Function.update m call.name held) := by
  obtain ⟨name, operation, before⟩ := call
  have hfits := hsound.fits id _ hcall
  have hcarries := hcarrying id _ hcall
  have hworks (w : Work) := h.works id _ w hcall rfl
  dsimp only at h hfits hcarries hworks hhonest hadv ⊢
  have hperform := fun hvalid : KeyName.Valid name => SecretMap.perform_of_valid hvalid m operation
  -- most steps leave both the record and what is held
  have hkeep (hrecord : change.recordAfter (s.record? name) = s.record? name)
      (hcached : ∀ secret, change.cachedAfter (s.cached? name) = some secret →
        m name = some secret)
      (hpurge : ∀ outcome, before ≠ .work (.purge outcome))
      (hself : ∀ w, stage = .work w → w.Expects opens (s.record? name) (m name))
      (heffect : Effect m ⟨name, operation, before⟩ reply stage m) :
      ∃ held, t.Stands opens name held ∧
        Effect m ⟨name, operation, before⟩ reply stage (Function.update m name held) := by
    refine ⟨m name, h.keep hcall hadv hcached hrecord hpurge hself, ?_⟩
    rwa [Function.update_eq_self]
  have hnext := hadv.next
  cases hnext with
  -- a call does its operation where it finds the name refused or cached
  | refused herror =>
    refine hkeep rfl h.cached (by simp) (by simp) (.performs rfl rfl ?_)
    simp only [SecretMap.perform, herror]
  | taken hheld =>
    obtain ⟨hvalid, rfl⟩ := hfits
    refine hkeep rfl h.cached (by simp) (by simp) (.performs rfl rfl ?_)
    rw [hperform hvalid, h.cached _ hheld]
  | hit hheld =>
    obtain ⟨hvalid, rfl⟩ := hfits
    refine hkeep rfl h.cached (by simp) (by simp) (.performs rfl rfl ?_)
    rw [hperform hvalid, h.cached _ hheld]
  | notSealed hfault =>
    exact hkeep rfl h.cached (by simp) (by simp) (.fails rfl rfl trivial ⟨_, hfault⟩)
  | granted =>
    refine hkeep rfl h.cached (by simp) (fun w hw => ?_)
      (.quiet (verdict?_of_first hfits.2.2))
    obtain rfl := Stage.work.inj hw
    exact expects_of_first hfits.2.2
  -- a call that creates a key does so where it finds the name free or taken in the table
  | inserted hnone =>
    obtain ⟨hvalid, rfl, -⟩ := hfits
    have hheld : m name = none := h.eq_none hsound hcall rfl rfl hnone
    rw [hheld] at h
    refine ⟨_, h.insert hsound hcall rfl hadv (hcarries _ _ rfl).secretOf_eq, .performs rfl rfl ?_⟩
    rw [hperform hvalid, hheld]
  | insertTaken hrecord =>
    obtain ⟨hvalid, rfl, -⟩ := hfits
    obtain ⟨secret, hheld, -⟩ := h.stored _ hrecord
    refine hkeep rfl h.cached (by simp) (by simp) (.performs rfl rfl ?_)
    rw [hperform hvalid, hheld]
  | cachedCreated =>
    have hheld := hworks _ rfl
    exact hkeep rfl (fun secret hsecret => by rwa [← hsecret]) (by simp) (by simp) (.quiet rfl)
  -- a call that reads a key does so where it finds no record
  | readNothing hnone =>
    obtain ⟨hvalid, rfl⟩ := hfits
    have hreaches : s.Reaches name := fun directory hfiles => by cases hmemory.symm.trans hfiles
    have hheld : m name = none := h.eq_none hsound hcall rfl rfl (hnone hreaches)
    refine hkeep rfl h.cached (by simp) (by simp) (.performs rfl rfl ?_)
    rw [hperform hvalid, hheld]
  | readFailed hfiles => exact absurd hmemory hfiles
  -- what it reads and decrypts otherwise is what is held, and stays so while it has the lock
  | readSecret hrecord hreaches hkey hread =>
    refine hkeep rfl h.cached (by simp) (fun w hw => ?_) (.quiet rfl)
    obtain rfl := Stage.work.inj hw
    obtain ⟨secret, hheld, hsecret⟩ := h.stored _ hrecord
    rw [secretOf, hkey, hread] at hsecret
    rw [Work.Expects, hheld]
    exact hsecret.symm
  | readMalformed hrecord hkey hread =>
    obtain ⟨secret, hheld, hsecret⟩ := h.stored _ hrecord
    rw [secretOf, hkey, hread] at hsecret
    cases hsecret
  | readCiphertext hrecord hreaches hkey hread =>
    refine hkeep rfl h.cached (by simp) (fun w hw => ?_) (.quiet rfl)
    obtain rfl := Stage.work.inj hw
    obtain ⟨secret, hheld, hsecret⟩ := h.stored _ hrecord
    rw [secretOf, hkey, hread] at hsecret
    intro x hx
    rw [hheld, ← hsecret, ← hx]
    rfl
  | readUnsealable hrecord hkey hread =>
    obtain ⟨secret, hheld, hsecret⟩ := h.stored _ hrecord
    rw [secretOf, hkey, hread] at hsecret
    cases hsecret
  | opened hsecret =>
    refine hkeep rfl h.cached (by simp) (fun w hw => ?_) (.quiet rfl)
    obtain rfl := Stage.work.inj hw
    exact hworks _ rfl _ (hhonest _ hsecret)
  | notOpened hfault =>
    exact hkeep rfl h.cached (by simp) (by simp) (.fails rfl rfl trivial ⟨_, hfault⟩)
  | @cachedRead secret =>
    obtain ⟨hvalid, rfl⟩ := hfits
    -- it gives what was cached meanwhile, which is the same
    have hread : m name = some secret := hworks _ rfl
    have hheld : m name = some ((s.cached? name).getD secret) := by
      cases hcached : s.cached? name with
      | none => exact hread
      | some x => exact h.cached x hcached
    refine hkeep rfl (fun x hx => hheld.trans hx) (by simp) (by simp) (.performs rfl rfl ?_)
    rw [hperform hvalid, hheld]
  -- the key is still held when its record is gone, until the name leaves the cache
  | removed =>
    refine ⟨m name, Stands.replace hsound hcall rfl rfl hadv h.cached rfl (.inr ⟨_, rfl⟩)
      (fun w hw => ?_), ?_⟩
    · obtain rfl := Stage.work.inj hw
      exact ⟨rfl, rfl⟩
    · rw [Function.update_eq_self]
      exact .quiet rfl
  | removedNothing hmissing => cases (removal_of_memory hmemory _ _).symm.trans hmissing
  | notRemoved hfailed => cases (removal_of_memory hmemory _ _).symm.trans hfailed
  | purged =>
    obtain ⟨hvalid, rfl⟩ := hfits
    obtain ⟨hnone, rfl⟩ := hworks _ rfl
    refine ⟨none, Stands.replace hsound hcall rfl rfl hadv (by simp [Change.cachedAfter]) hnone
      (.inl rfl) (by simp), .performs rfl rfl ?_⟩
    rw [hperform hvalid]
  | _ => first
    | exact absurd hmemory hfits.2.2
    | exact hkeep rfl h.cached (by simp) (by simp) (.quiet rfl)

/-- A new store in memory stands for the map without secrets. -/
theorem simulates_new {settings : Settings} (hmemory : settings.backend = .memory) (disk : Disk)
    (now : Nat) : (new settings disk now).Simulates opens fun _ => none := fun name =>
  { cached := fun secret h => by cases h
    stored := fun record h => by simp [record?, new, hmemory] at h
    missing := fun _ => .inl rfl
    works := fun id call w h => by simp [new] at h }

/-- Each step of a call to a store in memory does nothing to the map that the store stands for, or
is refused, or does the operation of the call. -/
theorem Simulates.advances (hmemory : s.settings.backend = .memory) (hsound : s.Sound)
    (hcarrying : Carrying opens s) (h : s.Simulates opens m)
    (hcall : s.calls.find? id = some call) (hhonest : reply.Honest opens call.stage)
    (hadv : s.Advances t id call reply change stage) :
    ∃ m', t.Simulates opens m' ∧ Effect m call reply stage m' := by
  obtain ⟨held, hstands, heffect⟩ :=
    (h call.name).effect hmemory hsound hcarrying hcall hhonest hadv
  refine ⟨_, fun name => ?_, heffect⟩
  by_cases hname : name = call.name
  · subst hname
    rwa [Function.update_self]
  · rw [Function.update_of_ne hname]
    exact (h name).other hcall hadv hname

theorem Simulates.newCall (h : s.Simulates opens m) (hfresh : s.calls.find? id = none)
    (operation : Operation) : (s.call id name operation).Simulates opens m := fun n =>
  { cached := (h n).cached
    stored := (h n).stored
    missing := fun hnone => by
      refine ((h n).missing hnone).imp_right ?_
      rintro ⟨j, other, outcome, hother, hname, hpurge⟩
      have hj : j ≠ id := by
        rintro rfl
        rw [hfresh] at hother
        cases hother
      exact ⟨j, other, outcome, by simpa [Store.call, hj] using hother, hname, hpurge⟩
    works := by
      intro j other w hother
      revert w
      exact forall_calls_call (P := fun _ c => ∀ w, c.name = n → c.stage = .work w →
        w.Expects opens (s.record? n) (m n)) (fun w _ hw => by cases hw)
        (fun k c hc w => (h n).works k c w hc) j other hother }

/-- A store that may have lost entries of its cache stands for the same map. -/
theorem Simulates.fades (h : s.Simulates opens m) (hfades : s.Fades t) :
    t.Simulates opens m := fun name =>
  { cached := fun secret hsecret => (h name).cached secret (hfades.cached name secret hsecret)
    stored := by
      rw [hfades.record?, hfades.settings]
      exact (h name).stored
    missing := by
      rw [hfades.record?, Purging, hfades.calls]
      exact (h name).missing
    works := by
      rw [hfades.record?, hfades.calls]
      exact (h name).works }

end Keyring.Store
