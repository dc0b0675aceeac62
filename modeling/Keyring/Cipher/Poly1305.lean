import Keyring.Cipher.Words

/-!
# Poly1305

The one-time authenticator: the message as a polynomial over the field of 2¹³⁰ - 5 elements,
evaluated at the first half of the key, plus the second half.
-/

namespace Keyring.Cipher.Poly1305

/-- The modulus. -/
def prime : Nat := Nat.pow 2 130 - 5

/-- Clear the bits of the evaluation point that have to be zero. -/
def clamp (r : Nat) : Nat := r &&& 0x0ffffffc0ffffffc0ffffffc0fffffff

/-- The coefficient of a piece of the message: its bytes and a one above them. -/
def coefficient (piece : List UInt8) : Nat := ofLittleEndian (piece ++ [1])

/-- The pieces of sixteen bytes, the last of which may be shorter. -/
def pieces (message : List UInt8) : List (List UInt8) :=
  (List.range ((message.length + 15) / 16)).map fun i => (message.drop (16 * i)).take 16

/-- The value of the polynomial. -/
def evaluate (r : Nat) (message : List UInt8) : Nat :=
  (pieces message).foldl (fun acc piece => (acc + coefficient piece) * r % prime) 0

/-- The tag of a message under a one-time key of 32 bytes. -/
def tag (key message : List UInt8) : List UInt8 :=
  let r := clamp (ofLittleEndian (key.take 16))
  let s := ofLittleEndian ((key.drop 16).take 16)
  toLittleEndian 16 (evaluate r message + s)

@[simp] theorem length_tag (key message : List UInt8) : (tag key message).length = 16 := by
  simp [tag]

end Keyring.Cipher.Poly1305
