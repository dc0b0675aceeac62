import Keyring.Cipher.Aead
import Keyring.Ciphertext
import Keyring.Data.FiniteMap
import Keyring.Kms.Fault
import Keyring.Secret

/-!
# Master keys in memory

A key management system that holds its master keys itself. A ciphertext is the nonce, the
encrypted secret and the tag; the name of the master key is associated data, so a ciphertext
opens only under the name it carries. The nonce is an argument: who encrypts supplies a fresh one.
-/

namespace Keyring

/-- A master key. -/
structure MasterKey where
  /-- The key material. -/
  material : Cipher.Key
  /-- Whether the key may be used. -/
  enabled : Bool
  deriving DecidableEq

/-- The master keys of a key management system, by name. -/
structure MasterKeys where
  /-- The keys. -/
  keys : NameMap MasterKey

namespace MasterKeys

/-- The number of bytes of the nonce at the start of a ciphertext. -/
def nonceSize : Nat := 12

/-- No master keys. -/
def empty : MasterKeys := ⟨.empty⟩

instance : Inhabited MasterKeys := ⟨empty⟩

/-- Add a key, enabled, in place of one of the same name. -/
def withKey (m : MasterKeys) (name : String) (material : Cipher.Key) : MasterKeys :=
  ⟨m.keys.insert name ⟨material, true⟩⟩

/-- Enable or disable a key; without a key of that name nothing changes. -/
def setEnabled (m : MasterKeys) (name : String) (enabled : Bool) : MasterKeys :=
  match m.keys.find? name with
  | some key => ⟨m.keys.insert name { key with enabled }⟩
  | none => m

/-- Whether there is a key of a name. -/
def contains (m : MasterKeys) (name : String) : Bool := m.keys.contains name

/-- The material of a key that may be used. -/
def material (m : MasterKeys) (name : String) : Except KmsFault Cipher.Key :=
  match m.keys.find? name with
  | none => .error (.keyNotFound name)
  | some key => if key.enabled then .ok key.material else .error (.keyDisabled name)

/-- Encrypt a secret under a master key and a nonce. -/
def encrypt (m : MasterKeys) (nonce : Cipher.Nonce) (name : String) (secret : Secret) :
    Except KmsFault Ciphertext :=
  match m.material name with
  | .error fault => .error fault
  | .ok key =>
    .ok ⟨name, nonce.bytes ++ Cipher.Aead.encrypt key nonce (Text.Utf8.ofString name) secret.bytes⟩

/-- Split the nonce off a ciphertext's bytes. -/
def splitNonce? (bytes : List UInt8) : Option (Cipher.Nonce × List UInt8) :=
  if h : (bytes.take nonceSize).length = 12 then
    some (⟨bytes.take nonceSize, h⟩, bytes.drop nonceSize)
  else none

/-- Decrypt a ciphertext. -/
def decrypt (m : MasterKeys) (c : Ciphertext) : Except KmsFault Secret :=
  match m.material c.key with
  | .error fault => .error fault
  | .ok key =>
    match splitNonce? c.bytes with
    | none => .error .notAuthentic
    | some (nonce, rest) =>
      match Cipher.Aead.decrypt? key nonce (Text.Utf8.ofString c.key) rest with
      | none => .error .notAuthentic
      | some bytes =>
        match Secret.ofBytes bytes with
        | .ok secret => .ok secret
        | .error fault =>
          .error (.other ("decrypted secret is invalid: " ++ fault.toError.message))

end MasterKeys

end Keyring
