import Keyring.Proofs.Ciphertext.Record
import Keyring.Proofs.Secret.Record
import Keyring.Proofs.Store.Exclusion

/-!
# What records unseal to

The key management system is a parameter: `opens` tells the secret of each ciphertext that it can
decrypt. It may fail whenever it is asked, but a ciphertext that it makes of a secret opens to that
secret, and what it gives for a ciphertext is what that opens to.

* `secretOf` — the secret of a record, in the format of a store;
* `Seals` — a record as it is made of a secret, which unseals to it, and no part of which does;
* `Reply.Honest`, `Honest` — what the key management system is relied on for;
* `Carrying` — the record that a call is to store is made of the secret that it was given.
-/

namespace Keyring.Store

/-- The secret of a record, as it is read. -/
def secretOf (settings : Settings) (opens : Ciphertext → Option Secret) (record : List UInt8) :
    Option Secret :=
  match settings.masterKey with
  | none => (Secret.ofRecord (settings.backend.readable record)).toOption
  | some _ => (Ciphertext.ofRecord (settings.backend.readable record)).toOption.bind opens

/-- An answer to a call at a stage that an honest key management system may give: a ciphertext that
opens to the secret and has a record that can be read, the secret that a ciphertext opens to, or
any failure. -/
def Reply.Honest (opens : Ciphertext → Option Secret) (reply : Reply) : Stage → Prop
  | .encrypt secret => ∀ c, reply.encrypted = .ok c → opens c = some secret ∧ c.Readable
  | .work (.decrypt c) => ∀ secret, reply.decrypted = .ok secret → opens c = some secret
  | _ => True

/-- A move in which the key management system is honest. -/
def Honest (opens : Ciphertext → Option Secret) (s : Store) : Move → Prop
  | .step id reply => ∀ call ∈ s.calls.find? id, reply.Honest opens call.stage
  | _ => True

instance decidableReplyHonest (opens : Ciphertext → Option Secret) (reply : Reply) :
    (stage : Stage) → Decidable (reply.Honest opens stage)
  | .encrypt secret =>
    match h : reply.encrypted with
    | .ok c => decidable_of_iff (opens c = some secret ∧ c.Readable) (by simp [Reply.Honest, h])
    | .error _ => isTrue (by simp [Reply.Honest, h])
  | .work (.decrypt c) =>
    match h : reply.decrypted with
    | .ok secret => decidable_of_iff (opens c = some secret) (by simp [Reply.Honest, h])
    | .error _ => isTrue (by simp [Reply.Honest, h])
  | .work (.makeDirectory _ _) | .work (.createFile _ _) | .work (.write _ _ _) | .work (.flush _)
  | .work (.sync _) | .work (.rollBack _) | .work (.insert _ _) | .work (.cacheCreated _)
  | .work .read | .work (.cacheRead _) | .work .remove | .work (.purge _)
  | .start | .lookUpNew _ | .lookUp | .record _ | .obtain _ | .request _ | .wait _ | .leave _
  | .finished _ => isTrue trivial

instance decidableHonest (opens : Ciphertext → Option Secret) (s : Store) :
    (m : Move) → Decidable (Honest opens s m)
  | .step id reply =>
    inferInstanceAs (Decidable (∀ call ∈ s.calls.find? id, reply.Honest opens call.stage))
  | .call _ _ _ | .wait _ | .beginSweep _ | .finishSweep _ | .evict _ => isTrue trivial

/-- The secret and the record that some work is to store. -/
def Work.toStore? : Work → Option (Secret × List UInt8)
  | .makeDirectory secret record | .createFile secret record | .write secret record _
  | .insert secret record => some (secret, record)
  | _ => none

/-- A record is made of a secret. -/
def Seals (settings : Settings) (opens : Ciphertext → Option Secret) (secret : Secret)
    (record : List UInt8) : Prop :=
  match settings.masterKey with
  | none => record = plainRecord secret
  | some _ => ∃ c : Ciphertext, c.Readable ∧ opens c = some secret ∧ record = c.toRecord

/-- The record that a call at a stage is to store is made of its secret. -/
def Stage.Carries (settings : Settings) (opens : Ciphertext → Option Secret) : Stage → Prop
  | .encrypt _ => settings.masterKey ≠ none
  | .obtain w | .request w | .wait w | .work w =>
    ∀ secret record, w.toStore? = some (secret, record) → Seals settings opens secret record
  | _ => True

/-- The record that any call is to store is made of its secret. -/
def Carrying (opens : Ciphertext → Option Secret) (s : Store) : Prop :=
  ∀ id call, s.calls.find? id = some call → call.stage.Carries s.settings opens

section

variable {opens : Ciphertext → Option Secret} {s t : Store} {id : Nat} {name : String}
  {operation : Operation} {reply : Reply} {call : Call} {stage stage' : Stage} {change : Change}
  {settings : Settings} {secret : Secret} {record : List UInt8}

/-- A record that is not longer than the limit is read as it is. -/
theorem readable_of_length_le (backend : Backend) (h : record.length ≤ readLimit) :
    backend.readable record = record := by
  cases backend with
  | files directory => exact List.take_of_length_le h
  | memory => rfl

theorem length_plainRecord_le (secret : Secret) : (plainRecord secret).length ≤ readLimit := by
  have hsize : secret.size ≤ Secret.maxSize := secret.length_le
  -- there is room for two digits for each byte of the largest secret
  have hlimit : 2 * Secret.maxSize ≤ readLimit := by decide
  rw [length_plainRecord]
  omega

/-- Without a master key, the record of a secret unseals to it. -/
theorem secretOf_plainRecord (hkey : settings.masterKey = none) (secret : Secret) :
    secretOf settings opens (plainRecord secret) = some secret := by
  rw [secretOf, hkey, readable_of_length_le _ (length_plainRecord_le secret),
    ofRecord_plainRecord]
  rfl

/-- With a master key, the record of a ciphertext unseals to what the ciphertext opens to. -/
theorem secretOf_toRecord (hkey : settings.masterKey ≠ none) {c : Ciphertext} (hc : c.Readable) :
    secretOf settings opens c.toRecord = opens c := by
  obtain ⟨key, hkey⟩ := Option.ne_none_iff_exists'.1 hkey
  have hlength : c.toRecord.length ≤ readLimit := Nat.le_succ_of_le hc.size_le
  rw [secretOf, hkey, readable_of_length_le _ hlength, Ciphertext.ofRecord_toRecord hc]
  rfl

/-- The record of a ciphertext that cannot be read is refused, however much is read of it. -/
theorem ofRecord_readable_toRecord (backend : Backend) {c : Ciphertext} (hc : ¬c.Readable) :
    ∃ error, Ciphertext.ofRecord (backend.readable c.toRecord) = .error error := by
  by_cases hlarge : Ciphertext.maxRecordSize < c.toRecord.length
  · -- a file is read one byte further than any record may reach
    have hlong : Ciphertext.maxRecordSize < (backend.readable c.toRecord).length := by
      cases backend with
      | files directory =>
        rw [Backend.readable, List.length_take]
        exact lt_min (Nat.lt_succ_self _) hlarge
      | memory => exact hlarge
    exact ⟨_, by rw [Ciphertext.ofRecord, Ciphertext.decode, if_pos hlong]⟩
  · -- a record that is not too large is refused for want of a key
    have hnoKey : c.key = "" := by
      by_contra hne
      exact hc ⟨hne, Nat.not_lt.1 hlarge⟩
    have hdecode := c.decode_toRecord
    rw [if_neg hlarge, if_pos hnoKey] at hdecode
    rw [readable_of_length_le _ (Nat.le_succ_of_le (Nat.not_lt.1 hlarge))]
    exact ⟨_, by rw [Ciphertext.ofRecord, hdecode]⟩

/-- With a master key, the record of a ciphertext that cannot be read unseals to nothing. -/
theorem secretOf_toRecord_eq_none (hkey : settings.masterKey ≠ none) {c : Ciphertext}
    (hc : ¬c.Readable) : secretOf settings opens c.toRecord = none := by
  obtain ⟨key, hkey⟩ := Option.ne_none_iff_exists'.1 hkey
  obtain ⟨error, hrefused⟩ := ofRecord_readable_toRecord settings.backend hc
  rw [secretOf, hkey, hrefused]
  rfl

/-- A record that is made of a secret unseals to it. -/
theorem Seals.secretOf_eq (h : Seals settings opens secret record) :
    secretOf settings opens record = some secret := by
  unfold Seals at h
  split at h
  case h_1 hkey =>
    subst h
    exact secretOf_plainRecord hkey secret
  case h_2 key hkey =>
    obtain ⟨c, hc, hopens, rfl⟩ := h
    rw [secretOf_toRecord (by simp [hkey]) hc, hopens]

/-- The empty record is made of no secret. -/
theorem Seals.length_pos (h : Seals settings opens secret record) : 0 < record.length := by
  rw [List.length_pos_iff]
  rintro rfl
  have hsome := h.secretOf_eq
  -- nothing is read as no secret and as no ciphertext
  have hempty : settings.backend.readable [] = [] := readable_of_length_le _ (Nat.zero_le _)
  rw [secretOf, hempty] at hsome
  split at hsome <;> cases hsome

/-- A record that is made of a secret can be read whole. -/
theorem Seals.length_le (h : Seals settings opens secret record) : record.length ≤ readLimit := by
  unfold Seals at h
  split at h
  case h_1 =>
    subst h
    exact length_plainRecord_le secret
  case h_2 =>
    obtain ⟨c, hc, -, rfl⟩ := h
    exact Nat.le_succ_of_le hc.size_le

/-- The record that is to be stored first is the one that was made. -/
theorem toStore?_storing (backend : Backend) (secret : Secret) (record : List UInt8) :
    (backend.storing secret record).toStore? = some (secret, record) := by
  cases backend <;> rfl

/-- Each step goes on carrying what it should. -/
theorem Next.carries (h : Next s id name operation reply stage change stage')
    (hhonest : reply.Honest opens stage) (hcarries : stage.Carries s.settings opens) :
    stage'.Carries s.settings opens := by
  cases h with
  -- the record is made of the secret itself, or of a ciphertext that opens to it
  | plain hkey =>
    intro secret record hstore
    rw [toStore?_storing] at hstore
    obtain ⟨rfl, rfl⟩ := Prod.mk.inj (Option.some.inj hstore)
    rw [Seals, hkey]
  | sealing hkey => simp [Stage.Carries, hkey]
  | sealed hc =>
    obtain ⟨hopens, hreadable⟩ := hhonest _ hc
    intro secret record hstore
    rw [toStore?_storing] at hstore
    obtain ⟨rfl, rfl⟩ := Prod.mk.inj (Option.some.inj hstore)
    obtain ⟨key, hkey⟩ := Option.ne_none_iff_exists'.1 hcarries
    rw [Seals, hkey]
    exact ⟨_, hreadable, hopens, rfl⟩
  -- any other step keeps the record, or leaves none to store
  | _ => simp_all [Stage.Carries, Work.toStore?]

theorem carrying_new (settings : Settings) (disk : Disk) (now : Nat) :
    Carrying opens (new settings disk now) := by
  intro id call h
  simp [new] at h

theorem Carrying.advances (h : Carrying opens s) (hcall : s.calls.find? id = some call)
    (hhonest : reply.Honest opens call.stage)
    (hadv : s.Advances t id call reply change stage) : Carrying opens t := by
  unfold Carrying
  rw [hadv.settings]
  exact hadv.forall_calls (hadv.next.carries hhonest (h id call hcall)) fun j other _ => h j other

theorem Carrying.newCall (h : Carrying opens s) : Carrying opens (s.call id name operation) :=
  forall_calls_call trivial h

theorem Carrying.fades (h : Carrying opens s) (hfades : s.Fades t) : Carrying opens t := by
  unfold Carrying
  rw [hfades.settings, hfades.calls]
  exact h

end

/-! ### A small key management system

One secret and one ciphertext of it, and answers that succeed. -/

namespace Sample

/-- A secret of two bytes. -/
def secret : Secret := ⟨[0xaa, 0xbb], by decide, by decide⟩

/-- The ciphertext of the secret. -/
def ciphertext : Ciphertext := ⟨"k", [0x07]⟩

/-- Only one ciphertext opens. -/
def opens (c : Ciphertext) : Option Secret := if c = ciphertext then some secret else none

/-- Everything succeeds, and a write stores so many bytes and one more. -/
def reply (limit : Nat) : Reply where
  device := .accept limit
  encrypted := .ok ciphertext
  decrypted := .ok secret

/-- The device refuses. -/
def refusal : Reply where
  device := .refuse .writeRefused
  encrypted := .ok ciphertext
  decrypted := .ok secret

/-- So many steps of a call that succeed. -/
def steps (id count : Nat) : List Move := List.replicate count (.step id (reply 100))

/-- The settings of a store without sweeps. -/
def settings (backend : Backend) (masterKey : Option String) : Settings :=
  ⟨backend, 0, 0, masterKey, .own⟩

/-- A new store that keeps its files in an empty directory. -/
def filesWith (masterKey : Option String) : Store :=
  new (settings (.files "keys") masterKey) ((Disk.empty [] 0).put ["keys"] (.directory 0o700)) 0

end Sample

end Keyring.Store
