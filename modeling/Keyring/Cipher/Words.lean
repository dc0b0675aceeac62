/-!
# Little-endian numbers

Bytes as numbers and numbers as bytes, the least significant byte first.
-/

namespace Keyring.Cipher

/-- The number of a sequence of bytes. -/
def ofLittleEndian (bytes : List UInt8) : Nat :=
  bytes.foldr (fun b n => b.toNat + 256 * n) 0

/-- The lowest `size` bytes of a number. -/
def toLittleEndian (size n : Nat) : List UInt8 :=
  (List.range size).map fun i => UInt8.ofNat (n / Nat.pow 256 i)

@[simp] theorem length_toLittleEndian (size n : Nat) : (toLittleEndian size n).length = size := by
  simp [toLittleEndian]

/-- The word of four bytes from a position on. -/
def wordAt (bytes : List UInt8) (position : Nat) : UInt32 :=
  UInt32.ofNat (ofLittleEndian ((bytes.drop position).take 4))

end Keyring.Cipher
