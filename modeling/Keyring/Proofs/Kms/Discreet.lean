import Keyring.Kms.MasterKeys
import Keyring.Proofs.Cipher.Aead
import Keyring.Proofs.Ciphertext.RoundTrip
import Keyring.Proofs.Secret.Alike

/-!
# Key management systems that are discreet

What a key management system answers may depend on much: on its master keys, on what befell it, on
chance. Its failures may not depend on the bytes of the secrets that it is given: it may have two
histories then that differ in those bytes only, and nobody can tell them apart by what fails.

That is not enough for a key store to hide the bytes. A ciphertext that names no master key, or that
is too large, is stored and never read again, so a system that gives such a ciphertext for some
secrets and not for others tells them apart without ever failing. One is discreet if it does not,
and uniform if all that it gives for secrets of one size is of one size and names one key.

Master keys in memory are uniform, whichever of them are enabled: a secret is encrypted or not by
the state of the key, and what was encrypted under a key decrypts while the key is enabled.

- `KeyService`: a key management system as a key store sees it;
- `KeyService.HidesBy`, `KeyService.FailsBlindly`: its failures do not depend on the bytes of
  secrets;
- `KeyService.Discreet`, `KeyService.Uniform`: its ciphertexts can be read alike, and are of one
  size;
- `MasterKeys.service`, `MasterKeys.uniform`: master keys in memory that are enabled and disabled.
-/

namespace Keyring

/-- A key management system as a key store sees it: what it may answer in a state, and its state
then. -/
structure KeyService where
  /-- What its answers depend on. -/
  State : Type
  /-- What is done to it other than by key stores, such as disabling a key. -/
  Step : Type
  /-- Its first state. -/
  start : State
  /-- Its state after a step. -/
  next : State → Step → State
  /-- What it may answer when a secret is to be encrypted under a master key. -/
  encrypts : State → String → Secret → Except KmsFault Ciphertext → State → Prop
  /-- What it may answer when a ciphertext is to be decrypted. -/
  decrypts : State → Ciphertext → Except KmsFault Secret → State → Prop

/-- Two relations that go with a key management system: one between ciphertexts that stand for
secrets of one size, and one between states that differ in the bytes of secrets only. -/
structure KeyService.Relates (k : KeyService) (kin : Ciphertext → Ciphertext → Prop)
    (twins : k.State → k.State → Prop) : Prop where
  refl : ∀ c, kin c c
  start : twins k.start k.start
  next : ∀ {a b}, twins a b → ∀ step, twins (k.next a step) (k.next b step)

/-- By two such relations a key management system hides the bytes of secrets: in related states it
fails alike for secrets of one size and for related ciphertexts, or succeeds with both. -/
structure KeyService.HidesBy (k : KeyService) (kin : Ciphertext → Ciphertext → Prop)
    (twins : k.State → k.State → Prop) : Prop extends k.Relates kin twins where
  encrypts : ∀ {a b a' b' key} {x y : Secret} {answer answer'}, twins a b → x.Alike y →
    k.encrypts a key x answer a' → k.encrypts b key y answer' b' →
      SameResult kin answer answer' ∧ twins a' b'
  decrypts : ∀ {a b a' b' c d answer answer'}, twins a b → kin c d →
    k.decrypts a c answer a' → k.decrypts b d answer' b' →
      SameResult Secret.Alike answer answer' ∧ twins a' b'

/-- The failures of a key management system do not depend on the bytes of secrets. -/
def KeyService.FailsBlindly (k : KeyService) : Prop := ∃ kin twins, k.HidesBy kin twins

/-- The failures of a key management system do not depend on the bytes of secrets, and neither does
it whether its ciphertexts can be read: whether they name a master key and are not too large. -/
def KeyService.Discreet (k : KeyService) : Prop :=
  ∃ kin twins, k.HidesBy kin twins ∧ ∀ {c d}, kin c d → (c.Readable ↔ d.Readable)

/-- Two ciphertexts name the same key and have the same number of bytes. -/
structure Ciphertext.Alike (c d : Ciphertext) : Prop where
  key : c.key = d.key
  size : c.bytes.length = d.bytes.length

/-- The failures of a key management system do not depend on the bytes of secrets, and neither do
the names of the keys and the sizes in its ciphertexts. -/
def KeyService.Uniform (k : KeyService) : Prop :=
  ∃ kin twins, k.HidesBy kin twins ∧ ∀ {c d}, kin c d → c.Alike d

/-- A key management system of two functions, which has no state. -/
def KeyService.ofFunctions (encrypt : String → Secret → Except KmsFault Ciphertext)
    (decrypt : Ciphertext → Except KmsFault Secret) : KeyService where
  State := Unit
  Step := Unit
  start := ()
  next _ _ := ()
  encrypts _ key x answer _ := answer = encrypt key x
  decrypts _ c answer _ := answer = decrypt c

/-- It hides the bytes of secrets if both functions give the same for secrets of one size. -/
theorem KeyService.hidesBy_ofFunctions {encrypt : String → Secret → Except KmsFault Ciphertext}
    {decrypt : Ciphertext → Except KmsFault Secret} {kin : Ciphertext → Ciphertext → Prop}
    (hrefl : ∀ c, kin c c)
    (hencrypt : ∀ key {x y : Secret}, x.Alike y → SameResult kin (encrypt key x) (encrypt key y))
    (hdecrypt : ∀ {c d}, kin c d → SameResult Secret.Alike (decrypt c) (decrypt d)) :
    (ofFunctions encrypt decrypt).HidesBy kin fun _ _ => True where
  refl := hrefl
  start := trivial
  next _ _ := trivial
  encrypts := by
    rintro _ _ _ _ key x y _ _ - hxy rfl rfl
    exact ⟨hencrypt key hxy, trivial⟩
  decrypts := by
    rintro _ _ _ _ c d _ _ - hcd rfl rfl
    exact ⟨hdecrypt hcd, trivial⟩

namespace Ciphertext.Alike

variable {c d : Ciphertext}

/-- Their records have the same number of bytes. -/
theorem length_toRecord (h : c.Alike d) : c.toRecord.length = d.toRecord.length := by
  rw [Ciphertext.length_toRecord, Ciphertext.length_toRecord, h.key, h.size]

theorem readable_iff (h : c.Alike d) : c.Readable ↔ d.Readable := by
  have hiff (c : Ciphertext) :
      c.Readable ↔ c.key ≠ "" ∧ c.toRecord.length ≤ maxRecordSize :=
    ⟨fun h => ⟨h.key_ne, h.size_le⟩, fun h => ⟨h.1, h.2⟩⟩
  rw [hiff, hiff, h.key, h.length_toRecord]

end Ciphertext.Alike

theorem KeyService.Uniform.discreet {k : KeyService} (h : k.Uniform) : k.Discreet := by
  obtain ⟨kin, twins, hhides, halike⟩ := h
  exact ⟨kin, twins, hhides, fun hkin => (halike hkin).readable_iff⟩

/-! ### Master keys in memory -/

namespace MasterKeys

variable {m k : MasterKeys} {name : String} {x y : Secret} {c d : Ciphertext}

/-- A secret encrypted under a key of a name. -/
def sealOf (name : String) (material : Cipher.Key) (nonce : Cipher.Nonce) (x : Secret) :
    Ciphertext :=
  ⟨name, nonce.bytes ++ Cipher.Aead.encrypt material nonce (Text.Utf8.ofString name) x.bytes⟩

theorem encrypt_eq (m : MasterKeys) (nonce : Cipher.Nonce) (name : String) (x : Secret) :
    m.encrypt nonce name x = (m.material name).map fun key => sealOf name key nonce x := by
  unfold encrypt
  cases m.material name <;> rfl

theorem splitNonce?_append (nonce : Cipher.Nonce) (rest : List UInt8) :
    splitNonce? (nonce.bytes ++ rest) = some (nonce, rest) := by
  have htake : (nonce.bytes ++ rest).take nonceSize = nonce.bytes :=
    List.take_left' nonce.length_eq
  have hdrop : (nonce.bytes ++ rest).drop nonceSize = rest := List.drop_left' nonce.length_eq
  unfold splitNonce?
  simp only [htake, hdrop, nonce.length_eq, dite_true]

/-- What is encrypted under a key decrypts while the key may be used. -/
theorem decrypt_sealOf (m : MasterKeys) (name : String) {material : Cipher.Key}
    (h : ∀ key, m.material name = .ok key → key = material) (nonce : Cipher.Nonce) (x : Secret) :
    m.decrypt (sealOf name material nonce x) = (m.material name).map fun _ => x := by
  unfold decrypt
  dsimp only [sealOf]
  cases hkey : m.material name with
  | error fault => rfl
  | ok key =>
    obtain rfl := h key hkey
    simp only [splitNonce?_append, Cipher.Aead.decrypt?_encrypt, Secret.ofBytes_bytes]
    rfl

/-- Two ciphertexts that are the same, or of secrets of one size under the same key. -/
inductive Kin (m : MasterKeys) : Ciphertext → Ciphertext → Prop where
  | refl (c : Ciphertext) : Kin m c c
  | sealed {name : String} {key : MasterKey} (hkey : m.keys.find? name = some key)
    {x y : Secret} (h : x.Alike y) (nonce nonce' : Cipher.Nonce) :
    Kin m (sealOf name key.material nonce x) (sealOf name key.material nonce' y)

/-- The same keys, of which others may be enabled. -/
def Rekeyed (m k : MasterKeys) : Prop :=
  ∀ name, (k.keys.find? name).map MasterKey.material = (m.keys.find? name).map MasterKey.material

theorem Rekeyed.setEnabled (h : m.Rekeyed k) (name : String) (enabled : Bool) :
    m.Rekeyed (k.setEnabled name enabled) := by
  intro other
  rw [← h other]
  unfold MasterKeys.setEnabled
  split
  case h_1 key hkey =>
    by_cases hother : other = name
    · subst hother
      simp [hkey]
    · simp [hother]
  case h_2 => rfl

/-- The material of a key that may be used is that of the key. -/
theorem Rekeyed.exists_find? (h : m.Rekeyed k) {material : Cipher.Key}
    (hmaterial : k.material name = .ok material) :
    ∃ key, m.keys.find? name = some key ∧ key.material = material := by
  have hsame := h name
  unfold MasterKeys.material at hmaterial
  split at hmaterial
  case h_1 => cases hmaterial
  case h_2 key hkey =>
    split at hmaterial
    case isTrue =>
      cases hmaterial
      rw [hkey, Option.map_some] at hsame
      exact Option.map_eq_some_iff.1 hsame.symm
    case isFalse => cases hmaterial

/-- Ciphertexts of secrets of one size under the same key are of one size. -/
theorem Kin.alike (h : m.Kin c d) : c.Alike d := by
  cases h with
  | refl => exact ⟨rfl, rfl⟩
  | @sealed name key hkey x y h nonce nonce' =>
    have hsize : x.bytes.length = y.bytes.length := h
    refine ⟨rfl, ?_⟩
    simp only [sealOf, List.length_append, nonce.length_eq, nonce'.length_eq,
      Cipher.Aead.length_encrypt, hsize]

/-- Encrypting secrets of one size fails alike, or gives ciphertexts of a kind. -/
theorem Rekeyed.encrypt (h : m.Rekeyed k) (name : String) (hxy : x.Alike y)
    (nonce nonce' : Cipher.Nonce) :
    SameResult m.Kin (k.encrypt nonce name x) (k.encrypt nonce' name y) := by
  rw [encrypt_eq, encrypt_eq]
  cases hmaterial : k.material name with
  | error fault => exact .error fault
  | ok material =>
    obtain ⟨key, hkey, rfl⟩ := h.exists_find? hmaterial
    exact .ok (.sealed hkey hxy nonce nonce')

/-- Decrypting ciphertexts of a kind fails alike, or gives secrets of one size. -/
theorem Rekeyed.decrypt (h : m.Rekeyed k) (hkin : m.Kin c d) :
    SameResult Secret.Alike (k.decrypt c) (k.decrypt d) := by
  cases hkin with
  | refl =>
    cases k.decrypt c with
    | error fault => exact .error fault
    | ok x => exact .ok (.refl x)
  | @sealed name key hkey x y hxy nonce nonce' =>
    have hmaterial (material : Cipher.Key) (hok : k.material name = .ok material) :
        material = key.material := by
      obtain ⟨found, hfound, rfl⟩ := h.exists_find? hok
      rw [Option.some.inj (hfound.symm.trans hkey)]
    rw [decrypt_sealOf k name hmaterial, decrypt_sealOf k name hmaterial]
    cases k.material name with
    | error fault => exact .error fault
    | ok material => exact .ok hxy

/-- Master keys in memory as a key management system, in which keys are enabled and disabled. Each
secret is encrypted under some nonce. -/
def service (m : MasterKeys) : KeyService where
  State := MasterKeys
  Step := String × Bool
  start := m
  next k step := k.setEnabled step.1 step.2
  encrypts k name x answer k' := (∃ nonce, answer = k.encrypt nonce name x) ∧ k' = k
  decrypts k c answer k' := answer = k.decrypt c ∧ k' = k

/-- **Master keys are uniform.** Whether they serve depends on which keys there are and which are
enabled, and on nothing that is encrypted. -/
theorem uniform (m : MasterKeys) : m.service.Uniform := by
  refine ⟨m.Kin, fun k k' => k = k' ∧ m.Rekeyed k, ⟨?_, ?_, ?_⟩, Kin.alike⟩
  · refine ⟨.refl, ⟨rfl, fun _ => rfl⟩, ?_⟩
    rintro k _ ⟨rfl, h⟩ ⟨name, enabled⟩
    exact ⟨rfl, h.setEnabled name enabled⟩
  · rintro k _ _ _ name x y _ _ ⟨rfl, h⟩ hxy ⟨⟨nonce, rfl⟩, rfl⟩ ⟨⟨nonce', rfl⟩, rfl⟩
    exact ⟨h.encrypt name hxy nonce nonce', rfl, h⟩
  · rintro k _ _ _ c d _ _ ⟨rfl, h⟩ hkin ⟨rfl, rfl⟩ ⟨rfl, rfl⟩
    exact ⟨h.decrypt hkin, rfl, h⟩

end MasterKeys

end Keyring
