import Keyring.Cipher.ChaCha20
import Keyring.Cipher.Poly1305

/-!
# Authenticated encryption

ChaCha20-Poly1305. `encrypt` encrypts a message and appends a tag over it and over associated data
that is not encrypted; `decrypt?` gives the message back only if the tag is right.
-/

namespace Keyring.Cipher

/-- A key of 256 bits. -/
structure Key where
  /-- The bytes. -/
  bytes : List UInt8
  /-- There are 32 of them. -/
  length_eq : bytes.length = 32
  deriving DecidableEq

/-- A number used once, of 96 bits. -/
structure Nonce where
  /-- The bytes. -/
  bytes : List UInt8
  /-- There are 12 of them. -/
  length_eq : bytes.length = 12
  deriving DecidableEq

/-- The key of a number, with its lowest byte first. -/
def Key.ofNat (n : Nat) : Key := ⟨toLittleEndian 32 n, length_toLittleEndian 32 n⟩

/-- The nonce of a number, with its lowest byte first. -/
def Nonce.ofNat (n : Nat) : Nonce := ⟨toLittleEndian 12 n, length_toLittleEndian 12 n⟩

namespace Aead

/-- The number of bytes in a tag. -/
def tagSize : Nat := 16

/-- The one-time key of the authenticator: the start of the block of counter zero. -/
def oneTimeKey (key : Key) (nonce : Nonce) : List UInt8 :=
  (ChaCha20.block key.bytes 0 nonce.bytes).take 32

/-- Zeros up to a multiple of sixteen bytes. -/
def padding (data : List UInt8) : List UInt8 := List.replicate ((16 - data.length % 16) % 16) 0

/-- What the tag is computed over: the associated data, the encrypted message and their sizes. -/
def authenticated (associated encrypted : List UInt8) : List UInt8 :=
  associated ++ padding associated ++ encrypted ++ padding encrypted ++
    toLittleEndian 8 associated.length ++ toLittleEndian 8 encrypted.length

/-- The tag of an encrypted message. -/
def tag (key : Key) (nonce : Nonce) (associated encrypted : List UInt8) : List UInt8 :=
  Poly1305.tag (oneTimeKey key nonce) (authenticated associated encrypted)

/-- Encrypt or decrypt a message. -/
def crypt (key : Key) (nonce : Nonce) (message : List UInt8) : List UInt8 :=
  ChaCha20.apply key.bytes 1 nonce.bytes message

/-- Encrypt a message and append its tag. -/
def encrypt (key : Key) (nonce : Nonce) (associated message : List UInt8) : List UInt8 :=
  let encrypted := crypt key nonce message
  encrypted ++ tag key nonce associated encrypted

/-- Check the tag at the end and decrypt what stands before it. -/
def decrypt? (key : Key) (nonce : Nonce) (associated sealedBytes : List UInt8) :
    Option (List UInt8) :=
  if sealedBytes.length < tagSize then none
  else
    let encrypted := sealedBytes.take (sealedBytes.length - tagSize)
    if sealedBytes.drop (sealedBytes.length - tagSize) = tag key nonce associated encrypted then
      some (crypt key nonce encrypted)
    else none

@[simp] theorem length_tag (key : Key) (nonce : Nonce) (associated encrypted : List UInt8) :
    (tag key nonce associated encrypted).length = tagSize :=
  Poly1305.length_tag _ _

@[simp] theorem length_crypt (key : Key) (nonce : Nonce) (message : List UInt8) :
    (crypt key nonce message).length = message.length :=
  ChaCha20.length_apply ..

@[simp] theorem length_encrypt (key : Key) (nonce : Nonce) (associated message : List UInt8) :
    (encrypt key nonce associated message).length = message.length + tagSize := by
  simp [encrypt]

@[simp] theorem crypt_crypt (key : Key) (nonce : Nonce) (message : List UInt8) :
    crypt key nonce (crypt key nonce message) = message :=
  ChaCha20.apply_apply ..

end Aead

end Keyring.Cipher
