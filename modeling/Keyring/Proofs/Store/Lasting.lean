import Keyring.Proofs.Store.Coherence
import Keyring.Proofs.Store.Reading
import Keyring.Proofs.Store.Recovery

/-!
# Created keys last

Of the key management system only one thing is relied on: what it makes of a secret is decrypted to
that secret again. Then the record of a key that a call has created stays as it is until it is
removed, and no other secret is cached for the key, for either kind of store, whatever becomes of
the cache and whether or not the record can be read.

- `Reply.Inverts`, `SealsAs`: answers of such a key management system, and records of its
  ciphertexts;
- `Stage.Brings`: the record that a call is to store is made of its secret;
- `Reliable`: the record of a key is as the calls that work on it rely on;
- `Lasts`, `Lawful.lasts`: a key that a call has created, which lasts.
-/

namespace Keyring.Store

/-- An answer to a call at a stage that a key management system may give which decrypts what it has
encrypted, and encrypts to ciphertexts of a kind. It may fail, and it may make anything of a
ciphertext that is not its own. -/
def Reply.Inverts (opens : Ciphertext → Option Secret) (kind : Ciphertext → Prop) (reply : Reply) :
    Stage → Prop
  | .encrypt secret => ∀ c ∈ reply.encrypted.toOption, opens c = some secret ∧ kind c
  | .work (.decrypt c) => ∀ secret ∈ opens c, ∀ x ∈ reply.decrypted.toOption, x = secret
  | _ => True

/-- An incident that does no harm to the record of a key: the key management system decrypts what it
has encrypted for it, no file that could not be stored is removed again while another call has read
it, and without a master key no call reads what another one is still writing. -/
def Harmless (opens : Ciphertext → Option Secret) (kind : Ciphertext → Prop) (name : String)
    (s : Store) : Incident → Prop
  | .move (.step id reply) => ∀ call ∈ s.calls.find? id, call.name = name →
    reply.Inverts opens kind call.stage ∧
      (call.stage.work?.any Work.isRollBack = true → ¬s.SomeWorks name Work.hasRead) ∧
      (s.settings.masterKey = none → call.stage = .work .read → ¬s.SomeWorks name Work.isDraft)
  | _ => True

section

variable (opens : Ciphertext → Option Secret) (kind : Ciphertext → Prop) [DecidablePred kind]

instance decidableReplyInverts (reply : Reply) : (stage : Stage) →
    Decidable (reply.Inverts opens kind stage)
  | .encrypt secret =>
    inferInstanceAs (Decidable (∀ c ∈ reply.encrypted.toOption, opens c = some secret ∧ kind c))
  | .work (.decrypt c) =>
    inferInstanceAs (Decidable (∀ secret ∈ opens c, ∀ x ∈ reply.decrypted.toOption, x = secret))
  | .work (.makeDirectory _ _) | .work (.createFile _ _) | .work (.write _ _ _) | .work (.flush _)
  | .work (.sync _) | .work (.rollBack _) | .work (.insert _ _) | .work (.cacheCreated _)
  | .work .read | .work (.cacheRead _) | .work .remove | .work (.purge _)
  | .start | .lookUpNew _ | .lookUp | .record _ | .obtain _ | .request _ | .wait _ | .leave _
  | .finished _ => isTrue trivial

instance decidableHarmless (name : String) (s : Store) :
    (i : Incident) → Decidable (Harmless opens kind name s i)
  | .move (.step id reply) => inferInstanceAs (Decidable (∀ call ∈ s.calls.find? id,
      call.name = name → reply.Inverts opens kind call.stage ∧
      (call.stage.work?.any Work.isRollBack = true → ¬s.SomeWorks name Work.hasRead) ∧
      (s.settings.masterKey = none → call.stage = .work .read → ¬s.SomeWorks name Work.isDraft)))
  | .move (.call _ _ _) | .move (.wait _) | .move (.beginSweep _) | .move (.finishSweep _)
  | .move (.evict _) | .drop _ | .restart => isTrue trivial

end

/-- A record is made of a secret, with a master key by way of a ciphertext of a kind. -/
def SealsAs (settings : Settings) (opens : Ciphertext → Option Secret) (kind : Ciphertext → Prop)
    (secret : Secret) (record : List UInt8) : Prop :=
  match settings.masterKey with
  | none => record = plainRecord secret
  | some _ => ∃ c : Ciphertext, kind c ∧ opens c = some secret ∧ record = c.toRecord

/-- A secret that may be made of a record when it is read. -/
def ReadsAs (settings : Settings) (opens : Ciphertext → Option Secret) (record : List UInt8)
    (secret : Secret) : Prop :=
  match settings.masterKey with
  | none => Secret.ofRecord (settings.backend.readable record) = .ok secret
  | some _ => ∃ c, Ciphertext.ofRecord (settings.backend.readable record) = .ok c ∧
    ∀ x ∈ opens c, secret = x

/-- The secret and the record that a call is to store from a stage on. -/
def Stage.toStore? : Stage → Option (Secret × List UInt8)
  | .obtain w | .request w | .wait w | .work w => w.toStore?
  | _ => none

/-- The record that a call at a stage is to store is made of its secret. -/
def Stage.Brings (settings : Settings) (made : Secret → List UInt8 → Prop) (stage : Stage) : Prop :=
  (∀ secret, stage = .encrypt secret → settings.masterKey ≠ none) ∧
    ∀ secret record, stage.toStore? = some (secret, record) → made secret record

/-- What some work relies on about the record of its name. -/
def Work.Relies (opens : Ciphertext → Option Secret) (kind : Ciphertext → Prop) (s : Store)
    (name : String) : Work → Prop
  | .write _ record written =>
    written < record.length ∧ s.Reaches name ∧ s.record? name = some (record.take written)
  | .flush secret | .sync secret | .cacheCreated secret =>
    s.Reaches name ∧ ∃ record, s.record? name = some record ∧
      SealsAs s.settings opens kind secret record
  | .rollBack _ => s.record? name ≠ none
  | .decrypt c => s.settings.masterKey ≠ none ∧ ∃ record, s.record? name = some record ∧
    Ciphertext.ofRecord (s.settings.backend.readable record) = .ok c
  | .cacheRead secret => ∃ record, s.record? name = some record ∧
    ReadsAs s.settings opens record secret
  | _ => True

/-- The record of a secret stands, nobody is still storing one, and no other secret is cached. -/
structure Lasts (s : Store) (name : String) (secret : Secret) (record : List UInt8) : Prop where
  valid : KeyName.Valid name
  reaches : s.Reaches name
  record : s.record? name = some record
  idle : ∀ id w, s.WorksOn name id w → w.isStoring = false
  cached : ∀ x, s.cached? name = some x → x = secret

/-- The record of a key is as the calls that work on it rely on. -/
structure Reliable (opens : Ciphertext → Option Secret) (kind : Ciphertext → Prop) (s : Store)
    (name : String) : Prop where
  brings : ∀ id call, s.calls.find? id = some call → call.name = name →
    call.stage.Brings s.settings (SealsAs s.settings opens kind)
  relies : ∀ id w, s.WorksOn name id w → w.Relies opens kind s name
  /-- At most one call stores the record. -/
  storing : ∀ id j w w', s.WorksOn name id w → s.WorksOn name j w' → w.isStoring = true →
    w'.isStoring = true → id = j
  /-- A record that is being written has not been read. -/
  draft : ∀ id j w w', s.WorksOn name id w → s.WorksOn name j w' → w.isDraft = true →
    w.isRollBack = false → w'.hasRead = false
  /-- What a call has created lasts when it is about to return. -/
  done : ∀ id secret, s.calls.find? id = some ⟨name, .create secret, .leave (.ok .done)⟩ →
    ∃ record, SealsAs s.settings opens kind secret record ∧ s.Lasts name secret record

/-- Nothing changes of the record of a key, nobody comes to work on it, and nothing is cached for
it. -/
structure Unharmed (s t : Store) (name : String) : Prop extends s.Undisturbed t name where
  reaches : s.Reaches name → t.Reaches name
  cached : ∀ x, t.cached? name = some x → s.cached? name = some x

section

variable {opens : Ciphertext → Option Secret} {kind : Ciphertext → Prop} {s t : Store} {id j : Nat}
  {name : String} {operation : Operation} {reply : Reply} {call : Call} {stage stage' : Stage}
  {change : Change} {secret : Secret} {record : List UInt8} {w : Work} {settings : Settings}

/-! ### Records -/

/-- What is read of a record is a part of it. -/
theorem readable_prefix (backend : Backend) (record : List UInt8) :
    backend.readable record <+: record := by
  cases backend with
  | files directory => exact List.take_prefix _ _
  | memory => exact List.prefix_rfl

/-- A record of a ciphertext that is read is that of the ciphertext. -/
theorem eq_of_ofRecord_readable (backend : Backend) {c d : Ciphertext}
    (h : Ciphertext.ofRecord (backend.readable c.toRecord) = .ok d) : c.Readable ∧ c = d := by
  by_cases hreadable : c.Readable
  case pos =>
    rw [readable_of_length_le _ (Nat.le_succ_of_le hreadable.size_le),
      Ciphertext.ofRecord_toRecord hreadable] at h
    exact ⟨hreadable, Except.ok.inj h⟩
  case neg =>
    obtain ⟨error, herror⟩ := ofRecord_readable_toRecord backend hreadable
    cases herror.symm.trans h

/-- What is read of a record that was made of a secret is that secret. -/
theorem SealsAs.eq_of_readsAs (h : SealsAs settings opens kind secret record) {x : Secret}
    (hread : ReadsAs settings opens record x) : x = secret := by
  unfold SealsAs at h
  unfold ReadsAs at hread
  cases hkey : settings.masterKey with
  | none =>
    rw [hkey] at h hread
    subst h
    rw [readable_of_length_le _ (length_plainRecord_le secret), ofRecord_plainRecord] at hread
    exact (Except.ok.inj hread).symm
  | some key =>
    rw [hkey] at h hread
    obtain ⟨c, -, hopens, rfl⟩ := h
    obtain ⟨d, hd, hx⟩ := hread
    obtain ⟨-, rfl⟩ := eq_of_ofRecord_readable _ hd
    exact hx secret hopens

/-- No record is empty. -/
theorem SealsAs.length_pos (h : SealsAs settings opens kind secret record) : 0 < record.length := by
  unfold SealsAs at h
  split at h
  case h_1 =>
    subst h
    rw [length_plainRecord]
    exact Nat.mul_pos Nat.two_pos (List.length_pos_iff.2 secret.ne_nil)
  case h_2 =>
    obtain ⟨c, -, -, rfl⟩ := h
    exact c.length_toRecord_pos

/-- With a master key, a part of a record is no record. -/
theorem SealsAs.ofRecord_part (h : SealsAs settings opens kind secret record)
    (hkey : settings.masterKey ≠ none) {written : Nat} (hpart : written < record.length) :
    Ciphertext.ofRecord (settings.backend.readable (record.take written)) =
      .error .malformedCiphertext := by
  obtain ⟨key, hkey⟩ := Option.ne_none_iff_exists'.1 hkey
  rw [SealsAs, hkey] at h
  obtain ⟨c, -, -, rfl⟩ := h
  have hread := readable_prefix settings.backend (c.toRecord.take written)
  refine Ciphertext.ofRecord_eq_error_of_prefix (hread.trans (List.take_prefix _ _)) fun hsame => ?_
  have hlength := hread.length_le
  rw [hsame, List.length_take] at hlength
  omega

/-! ### Single steps -/

/-- A step leaves the record, or there is none, or its call has a draft of it or is to remove it. -/
theorem Next.recordAfter_cases (h : Next s id name operation reply stage change stage') :
    change.recordAfter (s.record? name) = s.record? name ∨ s.record? name = none ∨
      (∃ w, stage = .work w ∧ w.isDraft = true) ∨ stage = .work .remove := by
  cases h with
  | fileMade hnone | inserted hnone => exact .inr (.inl hnone)
  | wroteSome | wroteAll | rolledBack => exact .inr (.inr (.inl ⟨_, rfl, rfl⟩))
  | removed => exact .inr (.inr (.inr rfl))
  | _ => exact .inl rfl

/-- A step leaves what is cached, or empties the cache, or caches a created secret or one that was
read. -/
theorem Next.cachedAfter_cases (h : Next s id name operation reply stage change stage') :
    change.cachedAfter (s.cached? name) = s.cached? name ∨
      change.cachedAfter (s.cached? name) = none ∨
      (∃ x, stage = .work (.cacheCreated x) ∧ stage' = .leave (.ok .done) ∧
        change.cachedAfter (s.cached? name) = some x) ∨
      ∃ x, stage = .work (.cacheRead x) ∧
        change.cachedAfter (s.cached? name) = some ((s.cached? name).getD x) := by
  cases h with
  | cachedCreated => exact .inr (.inr (.inl ⟨_, rfl, rfl, rfl⟩))
  | cachedRead => exact .inr (.inr (.inr ⟨_, rfl, rfl⟩))
  | purged => exact .inr (.inl rfl)
  | _ => exact .inl rfl

/-- A call that stores a record after a step did so before, or there was none. -/
theorem Next.isStoring_cases (h : Next s id name operation reply stage change (.work w))
    (hfits : stage.Fits s.settings name operation) (hstoring : w.isStoring = true) :
    (∃ v, stage = .work v ∧ v.isStoring = true) ∨ s.record? name = none := by
  cases h with
  | fileMade hnone | inserted hnone => exact .inr hnone
  | granted =>
    -- no call begins with storing
    rw [(idle_of_first hfits.2.2).1] at hstoring
    cases hstoring
  | wroteSome | wroteAll | writeFailed | flushed | flushFailed | synced | syncFailed =>
    exact .inl ⟨_, rfl, rfl⟩
  | _ => cases hstoring

/-- A call that writes a record after a step did so before, or there was none. -/
theorem Next.isDraft_cases (h : Next s id name operation reply stage change (.work w))
    (hfits : stage.Fits s.settings name operation) (hdraft : w.isDraft = true)
    (hwhole : w.isRollBack = false) :
    (∃ v, stage = .work v ∧ v.isDraft = true ∧ v.isRollBack = false) ∨ s.record? name = none := by
  cases h with
  | fileMade hnone => exact .inr hnone
  | granted =>
    have hstoring := isStoring_of_isDraft hdraft
    rw [(idle_of_first hfits.2.2).1] at hstoring
    cases hstoring
  | wroteSome => exact .inl ⟨_, rfl, rfl, rfl⟩
  | writeFailed | flushFailed | syncFailed => cases hwhole
  | _ => cases hdraft

/-- A call that has read the record after a step had read it before, or has just read it. -/
theorem Next.hasRead_cases (h : Next s id name operation reply stage change (.work w))
    (hfits : stage.Fits s.settings name operation) (hread : w.hasRead = true) :
    (∃ v, stage = .work v ∧ v.hasRead = true) ∨ stage = .work .read ∧
      ∃ record, s.record? name = some record ∧ (s.settings.masterKey ≠ none →
        ∃ c, Ciphertext.ofRecord (s.settings.backend.readable record) = .ok c) := by
  cases h with
  | granted =>
    rw [(idle_of_first hfits.2.2).2] at hread
    cases hread
  | readSecret hrecord _ hkey => exact .inr ⟨rfl, _, hrecord, fun hsome => absurd hkey hsome⟩
  | readCiphertext hrecord _ _ hc => exact .inr ⟨rfl, _, hrecord, fun _ => ⟨_, hc⟩⟩
  | opened => exact .inl ⟨_, rfl, rfl⟩
  | _ => cases hread

/-- A call that is to store something after a step was to store it before, or has just made its
record. -/
theorem Next.toStore?_cases (h : Next s id name operation reply stage change stage')
    (hstore : stage'.toStore? = some (secret, record)) :
    stage.toStore? = some (secret, record) ∨
      (s.settings.masterKey = none ∧ record = plainRecord secret) ∨
      ∃ c, stage = .encrypt secret ∧ reply.encrypted = .ok c ∧ record = c.toRecord := by
  cases h with
  | plain hkey =>
    rw [Stage.toStore?, toStore?_storing] at hstore
    obtain ⟨rfl, rfl⟩ := Prod.mk.inj (Option.some.inj hstore)
    exact .inr (.inl ⟨hkey, rfl⟩)
  | sealed hc =>
    rw [Stage.toStore?, toStore?_storing] at hstore
    obtain ⟨rfl, rfl⟩ := Prod.mk.inj (Option.some.inj hstore)
    exact .inr (.inr ⟨_, rfl, hc, rfl⟩)
  | directoryMade | fileMade | wroteSome | obtain | request | waiting | granted => exact .inl hstore
  | _ => cases hstore

/-- A new call, and one that is over, is to store nothing. -/
theorem brings_of_start_or_isOver (h : stage = .start ∨ stage.isOver = true)
    (made : Secret → List UInt8 → Prop) : stage.Brings settings made := by
  constructor
  · rintro x rfl
    rcases h with hstart | hover
    · cases hstart
    · cases hover
  · intro x bytes hstore
    rcases h with rfl | hover
    · cases hstore
    · obtain ⟨outcome, rfl⟩ := exists_finished hover
      cases hstore

/-- A call goes on bringing records that were made of its secret. -/
theorem Next.brings {made made' : Secret → List UInt8 → Prop}
    (h : Next s id name operation reply stage change stage')
    (hbrings : stage.Brings s.settings made) (hmono : ∀ x bytes, made x bytes → made' x bytes)
    (hplain : s.settings.masterKey = none → ∀ x, made' x (plainRecord x))
    (hsealed : ∀ x c, stage = .encrypt x → s.settings.masterKey ≠ none → reply.encrypted = .ok c →
      made' x c.toRecord) : stage'.Brings s.settings made' := by
  constructor
  · rintro x rfl
    cases h with
    | sealing hkey => simp [hkey]
  · intro x bytes hstore
    rcases h.toStore?_cases hstore with hbefore | ⟨hkey, rfl⟩ | ⟨c, hencrypt, hc, rfl⟩
    · exact hmono x bytes (hbrings.2 x bytes hbefore)
    · exact hplain hkey x
    · exact hsealed x c hencrypt (hbrings.1 x hencrypt) hc

/-- A call brings what is made of its secret by a key management system that can be relied on. -/
theorem Next.brings_sealsAs (h : Next s id name operation reply stage change stage')
    (hinverts : reply.Inverts opens kind stage)
    (hbrings : stage.Brings s.settings (SealsAs s.settings opens kind)) :
    stage'.Brings s.settings (SealsAs s.settings opens kind) := by
  refine h.brings hbrings (fun x bytes hmade => hmade) (fun hkey x => ?_)
    fun x c hencrypt hkey hc => ?_
  · rw [SealsAs, hkey]
  · subst hencrypt
    obtain ⟨key, hkey⟩ := Option.ne_none_iff_exists'.1 hkey
    have hown : opens c = some x ∧ kind c := hinverts c (by rw [hc]; rfl)
    rw [SealsAs, hkey]
    exact ⟨c, hown.2, hown.1, rfl⟩

/-! ### Nothing happens under a name -/

theorem Unharmed.spares (h : s.Unharmed t name) : s.Spares t name :=
  ⟨h.settings, h.reaches, h.record⟩

theorem unharmed_call (s : Store) (id : Nat) (n : String) (operation : Operation) (name : String) :
    s.Unharmed (s.call id n operation) name where
  toUndisturbed := undisturbed_call s id n operation name
  reaches h := h
  cached _ h := h

theorem Advances.unharmed (hadv : s.Advances t id call reply change stage)
    (hne : call.name ≠ name) : s.Unharmed t name where
  toUndisturbed := hadv.undisturbed hne
  reaches h := h.advances hadv
  cached x hx := by rwa [hadv.cached, if_neg hne.symm] at hx

theorem Fades.unharmed (h : s.Fades t) (name : String) : s.Unharmed t name where
  toUndisturbed := h.undisturbed name
  reaches := (h.spares name).reaches
  cached := h.cached name

theorem unharmed_abandon (s : Store) (id : Nat) (name : String) :
    s.Unharmed (s.abandon id) name where
  toUndisturbed := undisturbed_abandon s id name
  reaches h := h
  cached _ h := h

theorem unharmed_reopen (hfiles : s.settings.backend ≠ .memory) (name : String) :
    s.Unharmed s.reopen name where
  toUndisturbed := undisturbed_reopen hfiles name
  reaches h := h
  cached _ h := by cases h

/-- What work relies on it can go on relying on if nothing changes of the record. -/
theorem Work.Relies.spares (h : w.Relies opens kind s name) (hspares : s.Spares t name) :
    w.Relies opens kind t name := by
  cases w with
  | write x bytes written =>
    exact ⟨h.1, hspares.reaches h.2.1, hspares.record.trans h.2.2⟩
  | flush x | sync x | cacheCreated x =>
    obtain ⟨hreaches, bytes, hrecord, hseals⟩ := h
    exact ⟨hspares.reaches hreaches, bytes, hspares.record.trans hrecord,
      by rwa [hspares.settings]⟩
  | rollBack fault => rwa [Work.Relies, hspares.record]
  | decrypt c =>
    obtain ⟨hkey, bytes, hrecord, hc⟩ := h
    rw [Work.Relies, hspares.settings, hspares.record]
    exact ⟨hkey, bytes, hrecord, hc⟩
  | cacheRead x =>
    obtain ⟨bytes, hrecord, hread⟩ := h
    exact ⟨bytes, hspares.record.trans hrecord, by rwa [hspares.settings]⟩
  | makeDirectory _ _ | createFile _ _ | insert _ _ | read | remove | purge _ => trivial

/-- Work that neither stores a record nor has read one relies on nothing. -/
theorem relies_of_idle (hstoring : w.isStoring = false) (hread : w.hasRead = false) :
    w.Relies opens kind s name := by
  cases w <;> trivial

theorem Lasts.unharmed (h : s.Lasts name secret record) (hsame : s.Unharmed t name) :
    t.Lasts name secret record where
  valid := h.valid
  reaches := hsame.reaches h.reaches
  record := hsame.record.trans h.record
  idle id w hid := h.idle id w (hsame.worksOn hid)
  cached x hx := h.cached x (hsame.cached x hx)

/-- What nobody touches stays reliable. -/
theorem Reliable.unharmed (h : s.Reliable opens kind name) (hsame : s.Unharmed t name)
    (hcalls : ∀ j other, t.calls.find? j = some other → other.name = name →
      s.calls.find? j = some other ∨ other.stage = .start) : t.Reliable opens kind name where
  brings j other hother hname := by
    rw [hsame.settings]
    rcases hcalls j other hother hname with hold | hstart
    · exact h.brings j other hold hname
    · exact brings_of_start_or_isOver (.inl hstart) _
  relies j w hj := (h.relies j w (hsame.worksOn hj)).spares hsame.spares
  storing i j w w' hi hj := h.storing i j w w' (hsame.worksOn hi) (hsame.worksOn hj)
  draft i j w w' hi hj := h.draft i j w w' (hsame.worksOn hi) (hsame.worksOn hj)
  done j x hj := by
    obtain ⟨bytes, hseals, hlasts⟩ := h.done j x (hsame.works j _ hj rfl trivial)
    exact ⟨bytes, by rwa [hsame.settings], hlasts.unharmed hsame⟩

/-! ### A call works on the name -/

/-- While a record is stored or has been read, there is one. -/
theorem Work.Relies.record_ne_none (h : w.Relies opens kind s name)
    (hkind : w.isStoring = true ∨ w.hasRead = true) : s.record? name ≠ none := by
  intro hnone
  cases w with
  | write x bytes written => cases hnone.symm.trans h.2.2
  | flush x | sync x | cacheCreated x =>
    obtain ⟨-, bytes, hrecord, -⟩ := h
    cases hnone.symm.trans hrecord
  | rollBack fault => exact h hnone
  | decrypt c =>
    obtain ⟨-, bytes, hrecord, -⟩ := h
    cases hnone.symm.trans hrecord
  | cacheRead x =>
    obtain ⟨bytes, hrecord, -⟩ := h
    cases hnone.symm.trans hrecord
  | makeDirectory | createFile | insert | read | remove | purge =>
    simp [isStoring, hasRead] at hkind

/-- Without a record nobody stores one or has read one. -/
theorem Reliable.idle_of_none (h : s.Reliable opens kind name) (hnone : s.record? name = none)
    (hj : s.WorksOn name j w) : w.isStoring = false ∧ w.hasRead = false := by
  constructor
  · by_contra hstoring
    exact (h.relies j w hj).record_ne_none (.inl (by simpa using hstoring)) hnone
  · by_contra hread
    exact (h.relies j w hj).record_ne_none (.inr (by simpa using hread)) hnone

/-- While a call has a draft, no other stores the record. -/
theorem Reliable.not_isStoring_of_draft (h : s.Reliable opens kind name) {w' : Work}
    (hid : s.WorksOn name id w) (hdraft : w.isDraft = true) (hj : s.WorksOn name j w')
    (hne : j ≠ id) : w'.isStoring = false := by
  by_contra hstoring
  exact hne (h.storing j id w' w hj hid (by simpa using hstoring) (isStoring_of_isDraft hdraft))

/-- What lasts goes on lasting until it is removed. -/
theorem Lasts.advances (h : s.Lasts call.name secret record)
    (hseals : SealsAs s.settings opens kind secret record)
    (hreliable : s.Reliable opens kind call.name) (hsound : s.Sound)
    (hcall : s.calls.find? id = some call) (hremove : call.stage ≠ .work .remove)
    (hadv : s.Advances t id call reply change stage) : t.Lasts call.name secret record where
  valid := h.valid
  reaches := h.reaches.advances hadv
  record := by
    rw [hadv.record, if_pos rfl]
    rcases hadv.next.recordAfter_cases with hsame | hnone | ⟨w, hw, hdraft⟩ | hremoves
    · rw [hsame, h.record]
    · cases hnone.symm.trans h.record
    · -- nobody has a draft
      have hidle := h.idle id w ⟨call, hcall, rfl, hw⟩
      cases hidle.symm.trans (isStoring_of_isDraft hdraft)
    · exact absurd hremoves hremove
  idle j w hj := by
    rcases hadv.worksOn_cases hj with ⟨rfl, rfl⟩ | ⟨-, hj⟩
    · by_contra hstoring
      rcases hadv.next.isStoring_cases (hsound.fits j call hcall) (by simpa using hstoring) with
        ⟨v, hv, hstores⟩ | hnone
      · cases (h.idle j v ⟨call, hcall, rfl, hv⟩).symm.trans hstores
      · cases hnone.symm.trans h.record
    · exact h.idle j w hj
  cached x hx := by
    rw [hadv.cached, if_pos rfl] at hx
    rcases hadv.next.cachedAfter_cases with hsame | hnone | ⟨y, hy, -, -⟩ | ⟨y, hy, hsome⟩
    · exact h.cached x (hsame.symm.trans hx)
    · cases hnone.symm.trans hx
    · cases h.idle id _ ⟨call, hcall, rfl, hy⟩
    · -- what was read is the secret, and so is what was cached before
      obtain ⟨bytes, hbytes, hread⟩ := hreliable.relies id _ ⟨call, hcall, rfl, hy⟩
      obtain rfl := Option.some.inj (hbytes.symm.trans h.record)
      obtain rfl := Option.some.inj (hsome.symm.trans hx)
      cases hheld : s.cached? call.name with
      | none => exact hseals.eq_of_readsAs hread
      | some z => exact h.cached z hheld

section

variable (h : s.Reliable opens kind call.name) (hsound : s.Sound)
  (hcall : s.calls.find? id = some call) (hinverts : reply.Inverts opens kind call.stage)
  (hremains : call.stage.work?.any Work.isRollBack = true → ¬s.SomeWorks call.name Work.hasRead)
  (hreads : s.settings.masterKey = none → call.stage = .work .read →
    ¬s.SomeWorks call.name Work.isDraft)
  (hadv : s.Advances t id call reply change stage)

include h hsound hcall hadv

include hremains in
/-- What another call relies on it can go on relying on. -/
theorem Reliable.relies_other (hne : j ≠ id) (hj : s.WorksOn call.name j w) :
    w.Relies opens kind t call.name := by
  have hidle (hidle : w.isStoring = false ∧ w.hasRead = false) : w.Relies opens kind t call.name :=
    relies_of_idle hidle.1 hidle.2
  rcases hadv.next.recordAfter_cases with hsame | hnone | ⟨v, hv, hdraft⟩ | hremoves
  · have hrecord : t.record? call.name = s.record? call.name := by
      rw [hadv.record, if_pos rfl, hsame]
    exact (h.relies j w hj).spares (hadv.spares hrecord)
  · exact hidle (h.idle_of_none hnone hj)
  · refine hidle ⟨h.not_isStoring_of_draft ⟨call, hcall, rfl, hv⟩ hdraft hj hne, ?_⟩
    -- a draft that is removed has not been read, either
    cases hremoved : v.isRollBack with
    | false => exact h.draft id j v w ⟨call, hcall, rfl, hv⟩ hj hdraft hremoved
    | true =>
      by_contra hread
      exact hremains (by rw [hv]; exact hremoved) (someWorks_iff.2 ⟨j, w, hj, by simpa using hread⟩)
  · -- who removes the record is alone
    exact absurd (hsound.eq_of_exclusive ⟨call, hcall, rfl, hremoves⟩ rfl hj).symm hne

/-- What a call relies on after its step is there. -/
theorem Reliable.relies_self (hinverts : reply.Inverts opens kind call.stage)
    (hstage : stage = .work w) : w.Relies opens kind t call.name := by
  have hfits := hsound.fits id call hcall
  have hbrings := h.brings id call hcall rfl
  have hrelies {v : Work} (hv : call.stage = .work v) : v.Relies opens kind s call.name :=
    h.relies id v ⟨call, hcall, rfl, hv⟩
  have hkeeps (hrecord : change.recordAfter (s.record? call.name) = s.record? call.name)
      (hw : w.Relies opens kind s call.name) : w.Relies opens kind t call.name :=
    hw.spares (hadv.spares (by rw [hadv.record, if_pos rfl, hrecord]))
  have hreaches (hbefore : s.Reaches call.name) : t.Reaches call.name := hbefore.advances hadv
  have hrecord := hadv.record call.name
  rw [if_pos rfl] at hrecord
  obtain ⟨name, operation, before⟩ := call
  dsimp only at hfits hbrings hrelies hkeeps hreaches hrecord hadv hinverts ⊢
  subst hstage
  have hnext := hadv.next
  cases hnext with
  | granted =>
    obtain ⟨hstoring, hread⟩ := idle_of_first hfits.2.2
    exact relies_of_idle hstoring hread
  | fileMade _ hthere =>
    exact ⟨(hbrings.2 _ _ rfl).length_pos, hreaches hthere, by rw [hrecord]; rfl⟩
  | @wroteSome x bytes content written limit hcontent hlt =>
    obtain ⟨hpart, hthere, hbefore⟩ := hrelies (v := .write x bytes written) rfl
    obtain rfl := Option.some.inj (hcontent.symm.trans hbefore)
    refine ⟨hlt, hreaches hthere, ?_⟩
    rw [hrecord, Change.recordAfter, Disk.overwrite_take bytes hpart.le]
  | @wroteAll x bytes content written limit hcontent hlast =>
    -- the last bytes complete the record
    obtain ⟨hpart, hthere, hbefore⟩ := hrelies (v := .write x bytes written) rfl
    obtain rfl := Option.some.inj (hcontent.symm.trans hbefore)
    refine ⟨hreaches hthere, bytes, ?_, by rw [hadv.settings]; exact hbrings.2 x bytes rfl⟩
    rw [hrecord, Change.recordAfter, Disk.overwrite_take bytes hpart.le,
      List.take_of_length_le hlast]
  | @flushed x => exact hkeeps rfl (hrelies (v := .flush x) rfl)
  | @synced x => exact hkeeps rfl (hrelies (v := .sync x) rfl)
  | @inserted x bytes =>
    have hthere : s.Reaches name := fun directory hfiles => by cases hfits.2.2.symm.trans hfiles
    exact ⟨hreaches hthere, bytes, hrecord, by rw [hadv.settings]; exact hbrings.2 x bytes rfl⟩
  | @writeFailed x bytes written =>
    exact hkeeps rfl ((hrelies (v := .write x bytes written) rfl).record_ne_none (.inl rfl))
  | @flushFailed x => exact hkeeps rfl ((hrelies (v := .flush x) rfl).record_ne_none (.inl rfl))
  | @syncFailed x => exact hkeeps rfl ((hrelies (v := .sync x) rfl).record_ne_none (.inl rfl))
  | readSecret hsome _ hkey hx =>
    refine hkeeps rfl ⟨_, hsome, ?_⟩
    rw [ReadsAs, hkey]
    exact hx
  | readCiphertext hsome _ hkey hc => exact hkeeps rfl ⟨by simp [hkey], _, hsome, hc⟩
  | @opened c x hx =>
    -- a ciphertext of its own is decrypted to its secret
    obtain ⟨hkey, bytes, hsome, hc⟩ := hrelies (v := .decrypt c) rfl
    obtain ⟨key, hkey⟩ := Option.ne_none_iff_exists'.1 hkey
    refine hkeeps rfl ⟨bytes, hsome, ?_⟩
    rw [ReadsAs, hkey]
    exact ⟨c, hc, fun y hy => hinverts y hy x (by rw [hx]; rfl)⟩
  | directoryMade | removed | removedNothing | notRemoved => trivial

/-- A call that stores a record after its step is the only one. -/
theorem Reliable.storing_self (hne : j ≠ id) (hstage : stage = .work w)
    (hstoring : w.isStoring = true)
    {w' : Work} (hj : s.WorksOn call.name j w') : w'.isStoring = false := by
  subst hstage
  rcases hadv.next.isStoring_cases (hsound.fits id call hcall) hstoring with
    ⟨v, hv, hstores⟩ | hnone
  · by_contra hother
    exact hne (h.storing j id w' v hj ⟨call, hcall, rfl, hv⟩ (by simpa using hother) hstores)
  · exact (h.idle_of_none hnone hj).1

/-- Nobody has read what a call writes after its step. -/
theorem Reliable.draft_self (hstage : stage = .work w) (hdraft : w.isDraft = true)
    (hwhole : w.isRollBack = false) {w' : Work} (hj : s.WorksOn call.name j w') :
    w'.hasRead = false := by
  subst hstage
  rcases hadv.next.isDraft_cases (hsound.fits id call hcall) hdraft hwhole with
    ⟨v, hv, hold, hkept⟩ | hnone
  · exact h.draft id j v w' ⟨call, hcall, rfl, hv⟩ hj hold hkept
  · exact (h.idle_of_none hnone hj).2

include hreads in
/-- What a call has read by its step another one is not writing. -/
theorem Reliable.read_self (hstage : stage = .work w) (hread : w.hasRead = true)
    {w' : Work} (hj : s.WorksOn call.name j w') (hwhole : w'.isRollBack = false) :
    w'.isDraft = false := by
  subst hstage
  by_contra hdraft
  rw [Bool.not_eq_false] at hdraft
  rcases hadv.next.hasRead_cases (hsound.fits id call hcall) hread with
    ⟨v, hv, hold⟩ | ⟨hreading, bytes, hbytes, hreadable⟩
  · cases hold.symm.trans (h.draft j id w' v hj ⟨call, hcall, rfl, hv⟩ hdraft hwhole)
  · by_cases hkey : s.settings.masterKey = none
    case pos => exact hreads hkey hreading (someWorks_iff.2 ⟨j, w', hj, hdraft⟩)
    case neg =>
      -- what is written so far is the record of no ciphertext
      obtain ⟨c, hc⟩ := hreadable hkey
      obtain ⟨other, hother, hname, hwrites⟩ := hj
      have hbrings := h.brings j other hother hname
      have hrelies := h.relies j w' ⟨other, hother, hname, hwrites⟩
      cases w' with
      | write x record written =>
        obtain ⟨hpart, -, hrecord⟩ := hrelies
        obtain rfl := Option.some.inj (hbytes.symm.trans hrecord)
        rw [hwrites] at hbrings
        rw [(hbrings.2 x record rfl).ofRecord_part hkey hpart] at hc
        cases hc
      | rollBack fault => cases hwhole
      | _ => cases hdraft

/-- What a call has created lasts when it is about to return. -/
theorem Reliable.done_self (hstage : stage = .leave (.ok .done))
    (hcreate : call.operation = .create secret) :
    ∃ record, SealsAs s.settings opens kind secret record ∧ t.Lasts call.name secret record := by
  have hfits := hsound.fits id call hcall
  have hreaches (hbefore : s.Reaches call.name) : t.Reaches call.name := hbefore.advances hadv
  have hrecord := hadv.record call.name
  have hcached := hadv.cached call.name
  rw [if_pos rfl] at hrecord hcached
  have hidle {v : Work} (hv : call.stage = .work v) (hstores : v.isStoring = true) (j : Nat)
      (w : Work) (hj : t.WorksOn call.name j w) : w.isStoring = false := by
    rcases hadv.worksOn_cases hj with ⟨-, hw⟩ | ⟨hne, hj⟩
    · cases hstage.symm.trans hw
    · by_contra hother
      exact hne (h.storing j id w v hj ⟨call, hcall, rfl, hv⟩ (by simpa using hother) hstores)
  have hrelies {v : Work} (hv : call.stage = .work v) : v.Relies opens kind s call.name :=
    h.relies id v ⟨call, hcall, rfl, hv⟩
  obtain ⟨name, operation, before⟩ := call
  dsimp only at hfits hreaches hrecord hcached hidle hrelies hadv hcreate ⊢
  subst hstage
  have hnext := hadv.next
  cases hnext with
  | @cachedCreated x =>
    obtain ⟨hthere, bytes, hsome, hseals⟩ := hrelies (v := .cacheCreated x) rfl
    obtain rfl : x = secret := Operation.create.inj (hfits.2.symm.trans hcreate)
    refine ⟨bytes, hseals, hfits.1, hreaches hthere, hrecord.trans hsome, hidle rfl rfl, ?_⟩
    intro y hy
    exact (Option.some.inj (hcached.symm.trans hy)).symm
  | purged => cases hfits.2.symm.trans hcreate

include hinverts hremains hreads

/-- Each step leaves the record of its key reliable. -/
theorem Reliable.advances : t.Reliable opens kind call.name where
  brings := by
    rw [hadv.settings]
    exact hadv.forall_calls
      (fun _ => hadv.next.brings_sealsAs hinverts (h.brings id call hcall rfl))
      fun j other _ hother hname => h.brings j other hother hname
  relies j w hj := by
    rcases hadv.worksOn_cases hj with ⟨-, hstage⟩ | ⟨hne, hj⟩
    · exact h.relies_self hsound hcall hadv hinverts hstage
    · exact h.relies_other hsound hcall hremains hadv hne hj
  storing i j w w' hi hj hw hw' := by
    rcases hadv.worksOn_cases hi with ⟨rfl, hi⟩ | ⟨hne, hi⟩ <;>
      rcases hadv.worksOn_cases hj with ⟨rfl, hj⟩ | ⟨hne', hj⟩
    · rfl
    · cases hw'.symm.trans (h.storing_self hsound hcall hadv hne' hi hw hj)
    · cases hw.symm.trans (h.storing_self hsound hcall hadv hne hj hw' hi)
    · exact h.storing i j w w' hi hj hw hw'
  draft i j w w' hi hj hw hwhole := by
    rcases hadv.worksOn_cases hi with ⟨rfl, hstage⟩ | ⟨-, hi⟩ <;>
      rcases hadv.worksOn_cases hj with ⟨rfl, hstage'⟩ | ⟨-, hj⟩
    · -- no call has read its own draft
      obtain rfl := Stage.work.inj (hstage.symm.trans hstage')
      cases w <;> first
        | rfl
        | cases hw
    · exact h.draft_self hsound hcall hadv hstage hw hwhole hj
    · by_contra hread
      cases hw.symm.trans
        (h.read_self hsound hcall hreads hadv hstage' (by simpa using hread) hi hwhole)
    · exact h.draft i j w w' hi hj hw hwhole
  done j x hj := by
    rw [hadv.settings]
    rw [hadv.calls] at hj
    split at hj
    case isTrue =>
      obtain ⟨-, hcreate, hstage⟩ := Call.mk.inj (Option.some.inj hj)
      exact h.done_self hsound hcall hadv hstage hcreate
    case isFalse hne =>
      obtain ⟨bytes, hseals, hlasts⟩ := h.done j x hj
      refine ⟨bytes, hseals, hlasts.advances hseals h hsound hcall (fun hremove => ?_) hadv⟩
      exact hne (hsound.alone hcall hj hremove rfl trivial rfl).symm

end

/-! ### Runs -/

variable {incidents : List Incident} {disk : Disk} {now : Nat}

/-- When every call of a name is over, nobody relies on the record. -/
theorem Settled.reliable (h : s.Settled name) : s.Reliable opens kind name where
  brings id call hcall hname :=
    brings_of_start_or_isOver (.inr (h (id, call) (FiniteMap.mem_entries_iff.2 hcall) hname)) _
  relies id w hid := absurd hid (h.not_worksOn id w)
  storing id j w w' hid := absurd hid (h.not_worksOn id w)
  draft id j w w' hid := absurd hid (h.not_worksOn id w)
  done id x hcall := by cases h (id, _) (FiniteMap.mem_entries_iff.2 hcall) rfl

theorem reliable_new : (new settings disk now).Reliable opens kind name := by
  apply Settled.reliable
  intro e hmem
  cases hmem

theorem Reliable.newCall (h : s.Reliable opens kind name) (id : Nat) (n : String)
    (operation : Operation) : (s.call id n operation).Reliable opens kind name := by
  refine h.unharmed (unharmed_call s id n operation name) fun j other hother _ => ?_
  rw [Store.call, FiniteMap.find?_insert] at hother
  split at hother
  · obtain rfl := Option.some.inj hother
    exact .inr rfl
  · exact .inl hother

/-- A step of a call under another name. -/
theorem Reliable.elsewhere (h : s.Reliable opens kind name) (hne : call.name ≠ name)
    (hadv : s.Advances t id call reply change stage) : t.Reliable opens kind name := by
  refine h.unharmed (hadv.unharmed hne) fun j other hother hname => .inl ?_
  rw [hadv.calls] at hother
  split at hother
  · obtain rfl := Option.some.inj hother
    exact absurd hname hne
  · exact hother

theorem Reliable.fades (h : s.Reliable opens kind name) (hfades : s.Fades t) :
    t.Reliable opens kind name := by
  refine h.unharmed (hfades.unharmed name) fun j other hother _ => .inl ?_
  rwa [hfades.calls] at hother

theorem Reliable.abandon (h : s.Reliable opens kind name) (id : Nat) :
    (s.abandon id).Reliable opens kind name :=
  h.unharmed (unharmed_abandon s id name) fun _ _ hother _ => .inl (find?_of_abandon hother).2

/-- A step that does no harm leaves the record reliable. -/
theorem Reliable.step (h : s.Reliable opens kind name) (hsound : s.Sound)
    (hcall : s.calls.find? id = some call)
    (hharmless : Harmless opens kind name s (.move (.step id reply)))
    (hadv : s.Advances (s.step id reply) id call reply change stage) :
    (s.step id reply).Reliable opens kind name := by
  by_cases hname : call.name = name
  case pos =>
    subst hname
    obtain ⟨hinverts, hremains, hreads⟩ := hharmless call hcall rfl
    exact h.advances hsound hcall hinverts hremains hreads hadv
  case neg => exact h.elsewhere hname hadv

/-- The record of a key is reliable after a run that does it no harm. -/
theorem Lawful.reliable (hlawful : Lawful (Harmless opens kind name) s incidents) (hsound : s.Sound)
    (h : s.Reliable opens kind name) :
    (s.befallAll incidents).Sound ∧ (s.befallAll incidents).Reliable opens kind name := by
  refine hlawful.keeps (P := fun u => u.Reliable opens kind name) ?_ ?_ ?_ ?_ ?_ hsound h
  case refine_1 => exact fun u id n operation _ hu _ _ => hu.newCall id n operation
  case refine_2 =>
    exact fun u id call reply change stage hsound hu hcall hharmless hadv =>
      hu.step hsound hcall hharmless hadv
  case refine_3 => exact fun u v _ hu hfades => hu.fades hfades
  case refine_4 => exact fun u id _ hu _ => hu.abandon id
  case refine_5 => exact fun u _ _ _ => reliable_new

/-- What a call has created lasts when the call returns. -/
theorem Reliable.lasts_of_completes (h : s.Reliable opens kind name) (hsound : s.Sound)
    {i : Incident} (hfresh : i.Fresh s) (hcompletes : Completes name secret s i) :
    ∃ record, SealsAs s.settings opens kind secret record ∧
      (s.befall i).Lasts name secret record := by
  obtain ⟨id, reply, hcall, hadv, rfl⟩ := hcompletes.exists_leave hsound hfresh
  obtain ⟨record, hseals, hlasts⟩ := h.done id secret hcall
  exact ⟨record, hseals, hlasts.advances hseals h hsound hcall (by simp) hadv⟩

/-- A step that does no harm and does not remove the record leaves what lasts. -/
theorem Lasts.step (h : s.Lasts name secret record)
    (hseals : SealsAs s.settings opens kind secret record)
    (hreliable : s.Reliable opens kind name) (hsound : s.Sound)
    (hcall : s.calls.find? id = some call) (hkeeps : KeepsRecord name s (.move (.step id reply)))
    (hadv : s.Advances (s.step id reply) id call reply change stage) :
    (s.step id reply).Lasts name secret record := by
  by_cases hname : call.name = name
  case pos =>
    subst hname
    exact h.advances hseals hreliable hsound hcall (hkeeps call hcall rfl) hadv
  case neg => exact h.unharmed (hadv.unharmed hname)

/-- What lasts goes on lasting until the record is removed, or a store in memory is lost. -/
theorem Lawful.lasts
    (hlawful : Lawful (fun s i => Harmless opens kind name s i ∧ KeepsRecord name s i) s incidents)
    (hsettings : s.settings = settings)
    (hlost : settings.backend = .memory → ∀ i ∈ incidents, i ≠ .restart) (hsound : s.Sound)
    (hreliable : s.Reliable opens kind name) (hseals : SealsAs settings opens kind secret record)
    (h : s.Lasts name secret record) :
    (s.befallAll incidents).settings = settings ∧
      (s.befallAll incidents).Lasts name secret record := by
  have hstays : Lawful (fun s i => (Harmless opens kind name s i ∧ KeepsRecord name s i) ∧
      (settings.backend = .memory → i ≠ .restart)) s incidents :=
    hlawful.and_forall fun i hi hmemory => hlost hmemory i hi
  refine (hstays.keeps (P := fun u => u.Reliable opens kind name ∧ u.settings = settings ∧
    u.Lasts name secret record) ?_ ?_ ?_ ?_ ?_ hsound ⟨hreliable, hsettings, h⟩).2.2
  case refine_1 =>
    rintro u id n operation - ⟨hu, hsame, hlasts⟩ - -
    exact ⟨hu.newCall id n operation, hsame, hlasts.unharmed (unharmed_call u id n operation name)⟩
  case refine_2 =>
    rintro u id call reply change stage hsound ⟨hu, hsame, hlasts⟩ hcall
      ⟨⟨hharmless, hkeeps⟩, -⟩ hadv
    have hseals' : SealsAs u.settings opens kind secret record := by rwa [hsame]
    exact ⟨hu.step hsound hcall hharmless hadv, hadv.settings.trans hsame,
      hlasts.step hseals' hu hsound hcall hkeeps hadv⟩
  case refine_3 =>
    rintro u v - ⟨hu, hsame, hlasts⟩ hfades
    exact ⟨hu.fades hfades, hfades.settings.trans hsame, hlasts.unharmed (hfades.unharmed name)⟩
  case refine_4 =>
    rintro u id - ⟨hu, hsame, hlasts⟩ -
    exact ⟨hu.abandon id, hsame, hlasts.unharmed (unharmed_abandon u id name)⟩
  case refine_5 =>
    rintro u - ⟨hu, hsame, hlasts⟩ ⟨-, hfiles⟩
    have hfiles' : u.settings.backend ≠ .memory := by
      rw [hsame]
      exact fun hmemory => hfiles hmemory rfl
    exact ⟨reliable_new, hsame, hlasts.unharmed (unharmed_reopen hfiles' name)⟩

end

end Keyring.Store
