import Keyring.Cipher.Words

/-!
# ChaCha20

A stream cipher. A block is the serialized state after twenty rounds, added to the state before
them; the keystream is the blocks of successive counters.
-/

namespace Keyring.Cipher.ChaCha20

/-- The state: sixteen words. -/
abbrev State := Vector UInt32 16

/-- Rotate a word to the left. -/
def rotate (x : UInt32) (n : UInt32) : UInt32 := (x <<< n) ||| (x >>> (32 - n))

/-- The quarter round on four words of the state. -/
def quarterRound (s : State) (a b c d : Fin 16) : State :=
  let s := s.set a (s[a] + s[b])
  let s := s.set d (rotate (s[d] ^^^ s[a]) 16)
  let s := s.set c (s[c] + s[d])
  let s := s.set b (rotate (s[b] ^^^ s[c]) 12)
  let s := s.set a (s[a] + s[b])
  let s := s.set d (rotate (s[d] ^^^ s[a]) 8)
  let s := s.set c (s[c] + s[d])
  s.set b (rotate (s[b] ^^^ s[c]) 7)

/-- A column round and a diagonal round. -/
def doubleRound (s : State) : State :=
  let s := quarterRound s 0 4 8 12
  let s := quarterRound s 1 5 9 13
  let s := quarterRound s 2 6 10 14
  let s := quarterRound s 3 7 11 15
  let s := quarterRound s 0 5 10 15
  let s := quarterRound s 1 6 11 12
  let s := quarterRound s 2 7 8 13
  quarterRound s 3 4 9 14

/-- The state before the rounds: the constants, the key, the counter and the nonce. -/
def initial (key : List UInt8) (counter : UInt32) (nonce : List UInt8) : State :=
  #v[0x61707865, 0x3320646e, 0x79622d32, 0x6b206574,
    wordAt key 0, wordAt key 4, wordAt key 8, wordAt key 12,
    wordAt key 16, wordAt key 20, wordAt key 24, wordAt key 28,
    counter, wordAt nonce 0, wordAt nonce 4, wordAt nonce 8]

/-- A block of the keystream: 64 bytes. -/
def block (key : List UInt8) (counter : UInt32) (nonce : List UInt8) : List UInt8 :=
  let start := initial key counter nonce
  let final := Nat.repeat doubleRound 10 start
  (List.finRange 16).flatMap fun i => toLittleEndian 4 (start[i] + final[i]).toNat

theorem length_block (key : List UInt8) (counter : UInt32) (nonce : List UInt8) :
    (block key counter nonce).length = 64 := by
  simp [block, List.length_flatMap, List.map_const']

/-- At least `size` bytes of keystream, from the block of a counter on. -/
def keystream (key : List UInt8) (counter : Nat) (nonce : List UInt8) (size : Nat) : List UInt8 :=
  (List.range (size / 64 + 1)).flatMap fun i => block key (UInt32.ofNat (counter + i)) nonce

theorem le_length_keystream (key : List UInt8) (counter : Nat) (nonce : List UInt8) (size : Nat) :
    size ≤ (keystream key counter nonce size).length := by
  simp only [keystream, List.length_flatMap, length_block, List.map_const', List.length_range,
    List.sum_replicate_nat]
  omega

/-- Combine a message with the keystream. Doing so twice gives the message back. -/
def apply (key : List UInt8) (counter : Nat) (nonce message : List UInt8) : List UInt8 :=
  List.zipWith (· ^^^ ·) message (keystream key counter nonce message.length)

@[simp] theorem length_apply (key : List UInt8) (counter : Nat) (nonce message : List UInt8) :
    (apply key counter nonce message).length = message.length := by
  have := le_length_keystream key counter nonce message.length
  simp only [apply, List.length_zipWith]
  omega

private theorem zipWith_xor_cancel (m k : List UInt8) (h : m.length ≤ k.length) :
    List.zipWith (· ^^^ ·) (List.zipWith (· ^^^ ·) m k) k = m := by
  induction m generalizing k with
  | nil => simp
  | cons a m ih =>
    cases k with
    | nil => simp at h
    | cons b k =>
      simp only [List.length_cons, Nat.add_le_add_iff_right] at h
      simp only [List.zipWith_cons_cons, UInt8.xor_assoc, UInt8.xor_self, UInt8.xor_zero, ih k h]

@[simp] theorem apply_apply (key : List UInt8) (counter : Nat) (nonce message : List UInt8) :
    apply key counter nonce (apply key counter nonce message) = message := by
  have h := le_length_keystream key counter nonce message.length
  have hl := length_apply key counter nonce message
  unfold apply at hl ⊢
  rw [hl]
  exact zipWith_xor_cancel _ _ h

end Keyring.Cipher.ChaCha20
