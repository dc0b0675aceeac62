import Keyring.Proofs.Cache.Due
import Keyring.Proofs.Store.Alone
import Keyring.Proofs.Store.Simulation

/-!
# Calls one after the other

Somebody makes calls to a key store, each after the last one has ended, lets time pass between them
and sets the store up anew on its disk. The calls end as they do on a map from names to secrets: the
backend, the cache with its expiries and the clock cannot be told from the results.

- `Action`, `actAll`: what is done with a store, and what comes of it;
- `SecretMap.performAll`: the same calls on a map;
- `Stores`, `Rests`: between two calls, a store stands for a map;
- `Ends.performs`: a call ends as it does on the map;
- `actAll_eq_performAll`: so do all calls of a sequence.
-/

namespace Keyring.Store

/-- What is done with a store by its only caller. -/
inductive Action where
  /-- Make a call, and wait for its end. -/
  | call (name : String) (operation : Operation)
  /-- Let time pass continuously. -/
  | advance (duration : Nat)
  /-- Move the clock at once. -/
  | jump (duration : Nat)
  /-- Set the store up anew on its disk. -/
  | reopen

/-- The call that is made. -/
def Action.call? : Action → Option (String × Operation)
  | .call name operation => some (name, operation)
  | .advance _ | .jump _ | .reopen => none

/-- What the environment answers to a call at a stage, by the number of the call and the number of
steps that are left to it. -/
abbrev Environment := Nat → Nat → Stage → Reply

/-- The environment does not fail in the calls that are made. -/
def Environment.Faithful (environment : Environment) (settings : Settings)
    (opens : Ciphertext → Option Secret) (actions : List Action) : Prop :=
  ∀ name operation, .call name operation ∈ actions → ∀ n k stage,
    stage.Fits settings name operation → (environment n k stage).Faithful settings opens stage

/-- Set a store up anew on its disk. -/
def reopen (s : Store) : Store := new s.settings s.disk s.cache.now

/-- Do what is asked for; `n` is the number of a call that is made. -/
def act (environment : Environment) (n : Nat) (s : Store) : Action → Store
  | .call name operation => runFor (environment n) n longestRun (s.call n name operation)
  | .advance duration => { s with cache := s.cache.advance duration }
  | .jump duration => { s with cache := s.cache.jump duration }
  | .reopen => s.reopen

/-- Do what is asked for, one after the other. Gives how the calls ended, each if it did. -/
def actAll (environment : Environment) (n : Nat) (s : Store) :
    List Action → List (Option Outcome) × Store
  | [] => ([], s)
  | action :: actions =>
    let t := s.act environment n action
    let (outcomes, u) := t.actAll environment (n + 1) actions
    (if action.call?.isSome then t.outcome? n :: outcomes else outcomes, u)

/-- Do operations on a map, one after the other. -/
def SecretMap.performAll (m : SecretMap) : List (String × Operation) → List Outcome × SecretMap
  | [] => ([], m)
  | (name, operation) :: calls =>
    let (outcome, m) := m.perform name operation
    let (outcomes, m) := m.performAll calls
    (outcome :: outcomes, m)

/-- A store has, under the valid names, one record for each secret of a map, which unseals to the
secret, and no other. -/
def Stores (opens : Ciphertext → Option Secret) (s : Store) (m : SecretMap) : Prop :=
  ∀ name, KeyName.Valid name →
    (s.record? name).map (secretOf s.settings opens) = (m name).map some

/-- What is held under a name is a record of a secret and perhaps the secret itself, or nothing. -/
structure Slot.Matches (settings : Settings) (opens : Ciphertext → Option Secret) (slot : Slot)
    (held : Option Secret) : Prop where
  stored : slot.record.map (secretOf settings opens) = held.map some
  cached : ∀ secret, slot.cached = some secret → held = some secret

/-- Between two calls a store stands for a map; the numbers from `n` on are free. -/
structure Rests (opens : Ciphertext → Option Secret) (m : SecretMap) (n : Nat) (s : Store) :
    Prop where
  idle : s.Idle
  free : ∀ j, n ≤ j → s.calls.find? j = none
  holds : ∀ name, KeyName.Valid name → (s.slot name).Matches s.settings opens (m name)

/-- What no action changes: the settings, and what is kept under names that are not valid. -/
structure Keeps (s t : Store) : Prop where
  settings : t.settings = s.settings
  others : ∀ name, ¬KeyName.Valid name → t.record? name = s.record? name

section

variable {settings : Settings} {opens : Ciphertext → Option Secret} {s t : Store} {n : Nat}
  {name : String} {operation : Operation} {environment : Environment} {m : SecretMap}
  {action : Action} {actions : List Action} {before now : Slot} {outcome : Outcome}

/-! ### A call on the map -/

/-- An operation does nothing under other names. -/
theorem SecretMap.perform_of_ne (m : SecretMap) (operation : Operation) {other : String}
    (h : other ≠ name) : (m.perform name operation).2 other = m other := by
  unfold SecretMap.perform
  split
  · rfl
  · split <;> first | rfl | exact Function.update_of_ne h _ _

section

variable (hvalid : KeyName.Valid name)

include hvalid

theorem SecretMap.perform_create_of_none (h : m name = none) (secret : Secret) :
    m.perform name (.create secret) = (.ok .done, Function.update m name (some secret)) := by
  rw [perform_of_valid hvalid, h]

theorem SecretMap.perform_create_of_some {held : Secret} (h : m name = some held)
    (secret : Secret) : m.perform name (.create secret) = (.error .keyExists, m) := by
  rw [perform_of_valid hvalid, h]

theorem SecretMap.perform_get_of_none (h : m name = none) :
    m.perform name .get = (.error .keyNotFound, m) := by
  rw [perform_of_valid hvalid, h]

theorem SecretMap.perform_get_of_some {held : Secret} (h : m name = some held) :
    m.perform name .get = (.ok (.secret held), m) := by
  rw [perform_of_valid hvalid, h]

theorem SecretMap.perform_delete (m : SecretMap) :
    m.perform name .delete = (.ok .done, Function.update m name none) := by
  rw [perform_of_valid hvalid]

end

section

variable {held : Option Secret}

/-- Where a record is, its secret is held. -/
theorem Slot.Matches.eq_some {record : List UInt8} (h : before.Matches settings opens held)
    (hrecord : before.record = some record) :
    ∃ secret, held = some secret ∧ secretOf settings opens record = some secret := by
  have hstored := h.stored
  rw [hrecord] at hstored
  obtain ⟨secret, hheld, hopens⟩ := Option.map_eq_some_iff.1 hstored.symm
  exact ⟨secret, hheld, hopens.symm⟩

/-- Where no record is, nothing is held. -/
theorem Slot.Matches.eq_none (h : before.Matches settings opens held)
    (hrecord : before.record = none) : held = none := by
  have hstored := h.stored
  rw [hrecord] at hstored
  exact Option.map_eq_none_iff.1 hstored.symm

/-- A slot without anything matches nothing. -/
theorem Slot.matches_none (hheld : held = none) :
    Slot.Matches settings opens ⟨none, none⟩ held := by
  subst hheld
  exact ⟨rfl, fun _ h => h⟩

/-- A record of a secret, with the secret in the cache, matches the secret. -/
theorem Slot.matches_some {record : List UInt8} {secret : Secret} (hheld : held = some secret)
    (h : secretOf settings opens record = some secret) :
    Slot.Matches settings opens ⟨some record, some secret⟩ held := by
  subst hheld
  exact ⟨congrArg some h, fun _ h => h⟩

end

/-- A call ends as it does on the map that the store stands for, and the store stands for what
comes of the map. -/
theorem Ends.performs (h : Ends settings opens before operation outcome now)
    (hvalid : KeyName.Valid name) (hmatches : before.Matches settings opens (m name)) :
    (m.perform name operation).1 = outcome ∧
      now.Matches settings opens ((m.perform name operation).2 name) := by
  cases h with
  | taken hcached =>
    rw [SecretMap.perform_create_of_some hvalid (hmatches.cached _ hcached)]
    exact ⟨rfl, hmatches⟩
  | stored hcached hrecord =>
    obtain ⟨held, hheld, -⟩ := hmatches.eq_some hrecord
    rw [SecretMap.perform_create_of_some hvalid hheld]
    exact ⟨rfl, hmatches⟩
  | created hbefore hseals =>
    have hnone := hmatches.eq_none (congrArg Slot.record hbefore)
    rw [SecretMap.perform_create_of_none hvalid hnone]
    exact ⟨rfl, Slot.matches_some (Function.update_self ..) hseals.secretOf_eq⟩
  | hit hcached =>
    rw [SecretMap.perform_get_of_some hvalid (hmatches.cached _ hcached)]
    exact ⟨rfl, hmatches⟩
  | nothing hbefore =>
    have hnone := hmatches.eq_none (congrArg Slot.record hbefore)
    rw [SecretMap.perform_get_of_none hvalid hnone]
    exact ⟨rfl, hmatches⟩
  | read hbefore hopens =>
    obtain ⟨held, hheld, hopens'⟩ := hmatches.eq_some (congrArg Slot.record hbefore)
    obtain rfl := Option.some.inj (hopens.symm.trans hopens')
    rw [SecretMap.perform_get_of_some hvalid hheld]
    exact ⟨rfl, Slot.matches_some hheld hopens⟩
  | unreadable hbefore hopens =>
    -- a record of the store unseals to the secret that is held
    obtain ⟨held, -, hopens'⟩ := hmatches.eq_some (congrArg Slot.record hbefore)
    cases hopens.symm.trans hopens'
  | deleted =>
    rw [SecretMap.perform_delete hvalid]
    exact ⟨rfl, Slot.matches_none (Function.update_self ..)⟩

/-- A call under any name ends as it does on the map. -/
theorem Finishes.performs (h : Finishes settings opens name before operation outcome now)
    (hmatches : KeyName.Valid name → before.Matches settings opens (m name)) :
    (m.perform name operation).1 = outcome ∧
      (KeyName.Valid name → now.Matches settings opens ((m.perform name operation).2 name)) := by
  unfold Finishes at h
  split at h
  case h_1 error herror =>
    obtain ⟨rfl, rfl⟩ := h
    unfold SecretMap.perform
    rw [herror]
    exact ⟨rfl, hmatches⟩
  case h_2 hok =>
    have hvalid := KeyName.validate_eq_ok_iff.1 hok
    obtain ⟨houtcome, hnow⟩ := h.performs hvalid (hmatches hvalid)
    exact ⟨houtcome, fun _ => hnow⟩

/-- A call that fails leaves what is held as it is. -/
theorem Finishes.eq_of_error {error : Error}
    (h : Finishes settings opens name before operation (.error error) now) : now = before := by
  unfold Finishes at h
  split at h
  · exact h.2
  · cases h <;> rfl

/-! ### Each action -/

theorem Keeps.refl (s : Store) : s.Keeps s := ⟨rfl, fun _ _ => rfl⟩

theorem Keeps.trans {u : Store} (h : s.Keeps t) (h' : t.Keeps u) : s.Keeps u :=
  ⟨h'.settings.trans h.settings,
    fun name hname => (h'.others name hname).trans (h.others name hname)⟩

theorem Fades.keeps (h : s.Fades t) : s.Keeps t := ⟨h.settings, fun name _ => h.record? name⟩

theorem Idle.fades (h : s.Idle) (hfades : s.Fades t) : t.Idle where
  sound := h.sound.fades hfades
  served := by
    rw [hfades.locks]
    exact h.served
  hosted := h.hosted.of_eq hfades.settings hfades.disk
  finished := by
    rw [hfades.calls]
    exact h.finished

/-- A store that loses entries of its cache stands for the same map. -/
theorem Rests.fades (h : s.Rests opens m n) (hfades : s.Fades t) : t.Rests opens m (n + 1) where
  idle := h.idle.fades hfades
  free j hj := by
    rw [hfades.calls]
    exact h.free j (Nat.le_of_succ_le hj)
  holds name hvalid := by
    obtain ⟨hstored, hcached⟩ := h.holds name hvalid
    refine ⟨?_, fun secret hsecret => hcached secret (hfades.cached name secret hsecret)⟩
    rw [hfades.settings, slot, hfades.record?]
    exact hstored

/-- A call that has ended, and has touched nothing but what is held under its name, has ended as it
does on the map. -/
theorem Rests.of_finishes (h : s.Rests opens m n) (hidle : t.Idle) (hapart : s.Apart t n name)
    (hfinishes : Finishes s.settings opens name (s.slot name) operation outcome (t.slot name)) :
    outcome = (m.perform name operation).1 ∧ t.Rests opens (m.perform name operation).2 (n + 1) ∧
      s.Keeps t := by
  obtain ⟨hperform, hmatches⟩ := hfinishes.performs fun hvalid => h.holds name hvalid
  refine ⟨hperform.symm, ⟨hidle, fun j hj => ?_, fun other hother => ?_⟩,
    hapart.settings, fun other hother => ?_⟩
  · rw [hapart.calls j (Nat.ne_of_gt hj)]
    exact h.free j (Nat.le_of_succ_le hj)
  -- the call and the operation on the map leave other names alone
  · rw [hapart.settings]
    by_cases hname : other = name
    · subst hname
      exact hmatches hother
    · rw [m.perform_of_ne operation hname, hapart.slot other hname]
      exact h.holds other hother
  · by_cases hname : other = name
    · -- nothing is done under a name that is not valid
      subst hname
      unfold Finishes at hfinishes
      split at hfinishes
      · exact congrArg Slot.record hfinishes.2
      · next hok => exact absurd (KeyName.validate_eq_ok_iff.1 hok) hother
    · exact congrArg Slot.record (hapart.slot other hname)

/-- A call that nobody disturbs ends as it does on the map. -/
theorem Rests.call (h : s.Rests opens m n) (name : String) (operation : Operation)
    (hfaithful : ∀ k stage, stage.Fits s.settings name operation →
      (environment n k stage).Faithful s.settings opens stage) :
    ∃ t, s.act environment n (.call name operation) = t ∧
      t.outcome? n = some (m.perform name operation).1 ∧
      t.Rests opens (m.perform name operation).2 (n + 1) ∧ s.Keeps t := by
  obtain ⟨outcome, t, hrun, houtcome, hidle, hapart, hfinishes⟩ :=
    h.idle.complete (h.free n (Nat.le_refl n)) name operation hfaithful
  obtain ⟨hperform, hrests, hkeeps⟩ := h.of_finishes hidle hapart hfinishes
  exact ⟨t, hrun, by rw [houtcome, hperform], hrests, hkeeps⟩

/-- A store of files that is set up anew has the same records. -/
theorem record?_reopen (hfiles : s.settings.backend ≠ .memory) (name : String) :
    s.reopen.record? name = s.record? name := by
  unfold record? Store.reopen
  cases hbackend : s.settings.backend with
  | memory => exact absurd hbackend hfiles
  | files directory => simp only [new, hbackend]

/-- A store of files that is set up anew stands for the same map. -/
theorem Rests.reopen (h : s.Rests opens m n) (hfiles : s.settings.backend ≠ .memory) :
    s.reopen.Rests opens m (n + 1) ∧ s.Keeps s.reopen := by
  refine ⟨⟨idle_new h.idle.hosted _, fun j _ => rfl,
      fun name hvalid => ⟨?_, fun secret hsecret => ?_⟩⟩,
    rfl, fun name _ => record?_reopen hfiles name⟩
  · rw [slot, record?_reopen hfiles]
    exact (h.holds name hvalid).stored
  · cases hsecret

/-- A new store rests. -/
theorem rests_new {disk : Disk} {now : Nat}
    (hdisk : ∀ directory, settings.backend = .files directory → disk.Hosts directory)
    (hstores : (new settings disk now).Stores opens m) :
    (new settings disk now).Rests opens m 0 where
  idle := idle_new hdisk now
  free _ _ := rfl
  holds name hvalid := ⟨hstores name hvalid, fun secret hsecret => by cases hsecret⟩

/-! ### A sequence of actions -/

/-- The calls of a sequence end as they do on the map. -/
theorem Rests.actAll (h : s.Rests opens m n)
    (hreopen : s.settings.backend = .memory → .reopen ∉ actions)
    (hfaithful : environment.Faithful s.settings opens actions) :
    ∃ t k, s.actAll environment n actions =
        ((m.performAll (actions.filterMap Action.call?)).1.map some, t) ∧
      t.Rests opens (m.performAll (actions.filterMap Action.call?)).2 k ∧ s.Keeps t := by
  induction actions generalizing s m n with
  | nil => exact ⟨s, n, rfl, h, .refl s⟩
  | cons action actions ih =>
    have hreopen' (t : Store) (hkeeps : s.Keeps t) :
        t.settings.backend = .memory → .reopen ∉ actions := by
      rw [hkeeps.settings]
      exact fun hmemory hmem => hreopen hmemory (List.mem_cons_of_mem action hmem)
    have hfaithful' (t : Store) (hkeeps : s.Keeps t) :
        environment.Faithful t.settings opens actions := by
      rw [hkeeps.settings]
      exact fun name operation hmem => hfaithful name operation (List.mem_cons_of_mem action hmem)
    -- an action that makes no call leaves the map as it is
    have hquiet (hcall : action.call? = none)
        (hrests : (s.act environment n action).Rests opens m (n + 1))
        (hkeeps : s.Keeps (s.act environment n action)) :
        ∃ t k, s.actAll environment n (action :: actions) =
            ((m.performAll ((action :: actions).filterMap Action.call?)).1.map some, t) ∧
          t.Rests opens (m.performAll ((action :: actions).filterMap Action.call?)).2 k ∧
            s.Keeps t := by
      obtain ⟨t, k, hact, hrests', hkeeps'⟩ :=
        ih hrests (hreopen' _ hkeeps) (hfaithful' _ hkeeps)
      rw [List.filterMap_cons_none hcall]
      refine ⟨t, k, ?_, hrests', hkeeps.trans hkeeps'⟩
      rw [Store.actAll, hact, hcall]
      rfl
    cases action with
    | call name operation =>
      obtain ⟨u, hu, houtcome, hrests, hkeeps⟩ := h.call name operation
        (hfaithful name operation List.mem_cons_self n)
      obtain ⟨t, k, hact, hrests', hkeeps'⟩ :=
        ih hrests (hreopen' u hkeeps) (hfaithful' u hkeeps)
      have hcalls : (Action.call name operation :: actions).filterMap Action.call? =
          (name, operation) :: actions.filterMap Action.call? := List.filterMap_cons_some rfl
      rw [hcalls]
      refine ⟨t, k, ?_, hrests', hkeeps.trans hkeeps'⟩
      rw [Store.actAll, hu, hact, houtcome]
      rfl
    | advance duration =>
      have hfades : s.Fades (s.act environment n (.advance duration)) :=
        ⟨rfl, rfl, rfl, rfl, rfl, s.cache.fades_advance duration⟩
      exact hquiet rfl (h.fades hfades) hfades.keeps
    | jump duration =>
      have hfades : s.Fades (s.act environment n (.jump duration)) :=
        ⟨rfl, rfl, rfl, rfl, rfl, s.cache.fades_jump duration⟩
      exact hquiet rfl (h.fades hfades) hfades.keeps
    | reopen =>
      obtain ⟨hrests, hkeeps⟩ := h.reopen fun hmemory => hreopen hmemory List.mem_cons_self
      exact hquiet rfl hrests hkeeps

/-- **A key store is a map.** Calls that are made one after the other, on a device and with a key
management system that do not fail, end as they do on the map that the backend starts with, however
time passes between them and whenever a store of files is set up anew. After them, and so after each
of them, the backend has one record for each secret of what comes of the map, which unseals to it,
and nothing has changed under names that are not valid. -/
theorem actAll_eq_performAll {disk : Disk} {now : Nat}
    (hdisk : ∀ directory, settings.backend = .files directory → disk.Hosts directory)
    (hreopen : settings.backend = .memory → .reopen ∉ actions)
    (hfaithful : environment.Faithful settings opens actions)
    (hstores : (new settings disk now).Stores opens m) :
    ∃ t, (new settings disk now).actAll environment 0 actions =
        ((m.performAll (actions.filterMap Action.call?)).1.map some, t) ∧
      t.Stores opens (m.performAll (actions.filterMap Action.call?)).2 ∧
      ∀ name, ¬KeyName.Valid name → t.record? name = (new settings disk now).record? name := by
  obtain ⟨t, k, hact, hrests, hkeeps⟩ := (rests_new hdisk hstores).actAll hreopen hfaithful
  exact ⟨t, hact, fun name hvalid => (hrests.holds name hvalid).stored, hkeeps.others⟩

end

namespace Sample

/-- A disk with an empty directory. -/
def disk : Disk := (Disk.empty [] 0).put ["keys"] (.directory 0o700)

theorem find?_disk (name : String) : disk.find? ["keys", name] = none := by
  simp [disk, Disk.find?, Disk.put, Disk.empty, FiniteMap.ofList]

/-- The directory serves a store. -/
theorem disk_serves : disk.Serves "keys" :=
  Disk.serves_of_child (by decide) rfl fun name mode h => by
    cases (find?_disk name).symm.trans h

theorem placeOf_disk (name : String) : disk.placeOf "keys" name = ["keys", name] := by
  rw [show ["keys", name] = ["keys"] ++ [name] from rfl, Disk.placeOf]
  congr 1

/-- A store that keeps its files in the directory has no records. -/
theorem stores_none (settings : Settings) (hfiles : settings.backend = .files "keys") (now : Nat) :
    (new settings disk now).Stores opens fun _ => none := by
  intro name hvalid
  have hrecord : (new settings disk now).record? name = none := by
    rw [record?, new, hfiles]
    show disk.contentAt? (disk.placeOf "keys" name) = none
    rw [placeOf_disk, Disk.contentAt?, find?_disk]
  rw [hrecord]
  rfl

/-- Records are written two bytes at a time, and only one ciphertext is decrypted. -/
def answers : Environment := fun _ _ stage =>
  match stage with
  | .work (.decrypt c) =>
    { reply 1 with decrypted := (opens c).elim (.error .notAuthentic) .ok }
  | _ => reply 1

/-- A key is created and read, by the same store and by two later ones, and deleted. -/
def session : List Action :=
  [.call "n" .get, .call "n" (.create secret), .call "" .get, .advance (2 * Time.second),
    .call "n" .get, .reopen, .call "n" (.create secret), .jump 5, .call "n" .get, .reopen,
    .call "n" .delete, .call "n" .get]

theorem answers_faithful (settings : Settings) {actions : List Action}
    (h : ∀ name x, .call name (.create x) ∈ actions → x = secret) :
    answers.Faithful settings opens actions := by
  intro name operation hmem n k stage hfits
  refine ⟨?_, fun _ x hstage => ?_, fun _ c hstage => ?_⟩
  · unfold answers
    split <;> exact ⟨1, rfl⟩
  · subst hstage
    obtain ⟨-, rfl⟩ := hfits
    obtain rfl := h name x hmem
    exact ⟨ciphertext, rfl, by decide, by decide⟩
  · subst hstage
    simp only [answers]
    cases opens c <;> rfl

end Sample

/-- A store of files whose entries expire after a second, and which is set up anew twice, gives what
the map gives. -/
theorem created_until_deleted : ∃ t,
    (new ⟨.files "keys", Time.second, 0, some "k", .own⟩ Sample.disk 0).actAll
        Sample.answers 0 Sample.session =
      ([some (.error .keyNotFound), some (.ok .done),
        some (.error (.invalidName "" "name must not be empty")),
        some (.ok (.secret Sample.secret)), some (.error .keyExists),
        some (.ok (.secret Sample.secret)), some (.ok .done), some (.error .keyNotFound)], t) := by
  have hdisk (directory : String) (hfiles : Backend.files "keys" = .files directory) :
      Sample.disk.Hosts directory := by
    obtain rfl := Backend.files.inj hfiles
    exact .there Sample.disk_serves
  have hreopen (hmemory : Backend.files "keys" = .memory) : Action.reopen ∉ Sample.session := by
    cases hmemory
  have hstores := Sample.stores_none ⟨.files "keys", Time.second, 0, some "k", .own⟩ rfl 0
  have hfaithful : Sample.answers.Faithful
      ⟨.files "keys", Time.second, 0, some "k", .own⟩ Sample.opens Sample.session :=
    Sample.answers_faithful _ fun name x hmem => by simp_all [Sample.session]
  obtain ⟨t, h, -⟩ := actAll_eq_performAll hdisk hreopen hfaithful hstores
  exact ⟨t, h⟩

end Keyring.Store
