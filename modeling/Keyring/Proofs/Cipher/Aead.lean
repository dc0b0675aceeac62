import Mathlib.Algebra.BigOperators.Fin
import Mathlib.Tactic.Ring
import Keyring.Cipher.Aead
import Keyring.Text.Utf8

/-!
# What authenticated encryption gives

The encrypted form of a message, described byte by byte and by the number that its tag stands for,
without the order in which either is computed. Decrypting gives a message exactly if it is given the
encrypted form of that message.

- `ChaCha20.getElem?_keystream`: the keystream, byte by byte;
- `Poly1305.evaluate_eq_sum`: what is authenticated, as the value of a polynomial;
- `Aead.Encrypts`, `Aead.encrypts_iff`: the encrypted form of a message;
- `Aead.decrypt?_eq_some_iff`, `Aead.decrypt?_eq_none_iff`: what is decrypted, and what is refused.
-/

namespace Keyring.Cipher

open Finset

/-! ### Little-endian numbers -/

theorem toLittleEndian_succ (size n : Nat) :
    toLittleEndian (size + 1) n = UInt8.ofNat n :: toLittleEndian size (n / 256) := by
  unfold toLittleEndian
  rw [List.range_succ_eq_map, List.map_cons, List.map_map]
  congr 1
  · rw [show Nat.pow 256 0 = 1 from rfl, Nat.div_one]
  · refine List.map_congr_left fun i _ => ?_
    show UInt8.ofNat (n / 256 ^ (i + 1)) = UInt8.ofNat (n / 256 / 256 ^ i)
    rw [Nat.div_div_eq_div_mul, Nat.pow_succ']

theorem ofLittleEndian_cons (b : UInt8) (bytes : List UInt8) :
    ofLittleEndian (b :: bytes) = b.toNat + 256 * ofLittleEndian bytes := rfl

/-- The lowest bytes of a number stand for what is left of it. -/
theorem ofLittleEndian_toLittleEndian (size n : Nat) :
    ofLittleEndian (toLittleEndian size n) = n % 256 ^ size := by
  induction size generalizing n with
  | zero => simp [toLittleEndian, ofLittleEndian, Nat.mod_one]
  | succ size ih =>
    have hlow : (UInt8.ofNat n).toNat = n % 256 := rfl
    rw [toLittleEndian_succ, ofLittleEndian_cons, ih, hlow, Nat.pow_succ', Nat.mod_mul]

/-- Bytes are the lowest ones of the number that they stand for. -/
theorem toLittleEndian_ofLittleEndian (bytes : List UInt8) :
    toLittleEndian bytes.length (ofLittleEndian bytes) = bytes := by
  induction bytes with
  | nil => rfl
  | cons b bytes ih =>
    have hb := b.toNat_lt
    have hlow : UInt8.ofNat (b.toNat + 256 * ofLittleEndian bytes) = b := by
      apply UInt8.toNat_inj.1
      rw [UInt8.toNat_ofNat']
      omega
    have hhigh : (b.toNat + 256 * ofLittleEndian bytes) / 256 = ofLittleEndian bytes := by omega
    rw [List.length_cons, ofLittleEndian_cons, toLittleEndian_succ, hlow, hhigh, ih]

/-- Bytes are known by their number and the number that they stand for. -/
theorem eq_toLittleEndian_iff {size n : Nat} {bytes : List UInt8} (h : bytes.length = size) :
    bytes = toLittleEndian size n ↔ ofLittleEndian bytes = n % 256 ^ size := by
  constructor
  · rintro rfl
    exact ofLittleEndian_toLittleEndian size n
  · intro hnumber
    rw [← ofLittleEndian_toLittleEndian] at hnumber
    have hsame := congrArg (toLittleEndian size) hnumber
    rw [← h, toLittleEndian_ofLittleEndian, h] at hsame
    have hround := toLittleEndian_ofLittleEndian (toLittleEndian size n)
    rw [length_toLittleEndian] at hround
    exact hsame.trans hround

/-! ### The keystream -/

/-- A byte of blocks of one length that stand one after the other. -/
theorem getElem?_flatMap_range {f : Nat → List UInt8} {n : Nat} (hf : ∀ i, (f i).length = n)
    (count : Nat) {i : Nat} (hi : i < count * n) :
    ((List.range count).flatMap f)[i]? = (f (i / n))[i % n]? := by
  induction count with
  | zero => simp at hi
  | succ count ih =>
    have hlength : ((List.range count).flatMap f).length = count * n := by
      simp [List.length_flatMap, hf, List.map_const']
    rw [List.range_succ, List.flatMap_append, List.flatMap_cons, List.flatMap_nil,
      List.append_nil]
    by_cases hlt : i < count * n
    · rw [List.getElem?_append_left (hlength ▸ hlt), ih hlt]
    · -- the position is in the last block
      have hblock : i / n = count ∧ i % n = i - count * n := by
        have hlast : i - count * n < n := by rw [Nat.add_one_mul] at hi; omega
        have hsplit : i = i - count * n + n * count := by rw [Nat.mul_comm n]; omega
        constructor
        · rw [hsplit, Nat.add_mul_div_left _ _ (Nat.zero_lt_of_lt hlast),
            Nat.div_eq_of_lt hlast, Nat.zero_add]
        · rw [hsplit, Nat.add_mul_mod_self_left, Nat.mod_eq_of_lt hlast]
          omega
      rw [List.getElem?_append_right (hlength ▸ Nat.not_lt.1 hlt), hlength, hblock.1, hblock.2]

/-- A byte of the keystream is a byte of the block that it falls into. -/
theorem ChaCha20.getElem?_keystream (key : List UInt8) (counter : Nat) (nonce : List UInt8)
    {size i : Nat} (hi : i < size) :
    (keystream key counter nonce size)[i]? =
      (block key (UInt32.ofNat (counter + i / 64)) nonce)[i % 64]? :=
  getElem?_flatMap_range (fun _ => length_block _ _ _) _ (by omega)

/-! ### The authenticator -/

namespace Poly1305

/-- The polynomial whose coefficients are pieces of a message, the first one that of the highest
power, at a point. -/
def polynomial (ps : List (List UInt8)) (r : Nat) : Nat :=
  ∑ i : Fin ps.length, coefficient ps[i] * r ^ (ps.length - i)

theorem polynomial_cons (p : List UInt8) (ps : List (List UInt8)) (r : Nat) :
    polynomial (p :: ps) r = coefficient p * r ^ (ps.length + 1) + polynomial ps r := by
  unfold polynomial
  refine (Fin.sum_univ_succ _).trans ?_
  congr 1
  refine Fintype.sum_congr _ _ fun i => ?_
  simp only [Fin.getElem_fin, Fin.val_succ, List.getElem_cons_succ, List.length_cons,
    Nat.add_sub_add_right]

/-- To add and multiply piece by piece is to take the value of the polynomial. -/
theorem evaluate_eq_sum (r : Nat) (message : List UInt8) :
    evaluate r message = polynomial (pieces message) r % prime := by
  -- with what was summed up before some of the pieces
  have hfold (ps : List (List UInt8)) (acc : Nat) :
      ps.foldl (fun acc piece => (acc + coefficient piece) * r % prime) acc % prime =
        (acc * r ^ ps.length + polynomial ps r) % prime := by
    induction ps generalizing acc with
    | nil => simp [polynomial]
    | cons p ps ih =>
      rw [List.foldl_cons, ih, polynomial_cons, List.length_cons, ← Nat.mod_add_mod,
        Nat.mod_mul_mod, Nat.mod_add_mod]
      congr 1
      ring
  have hall := hfold (pieces message) 0
  rw [Nat.zero_mul, Nat.zero_add] at hall
  unfold evaluate
  rw [← hall]
  -- the sum that is kept is below the modulus
  rcases (pieces message).eq_nil_or_concat' with hnil | ⟨ps, p, hconcat⟩
  · rw [hnil]
    rfl
  · rw [hconcat, List.foldl_concat, Nat.mod_mod]

end Poly1305

/-! ### Messages -/

namespace Aead

variable {key : Key} {nonce : Nonce} {associated message sealedBytes : List UInt8}

/-- The byte of the keystream for a position in a message. The block of counter zero is kept for the
tag, so that those of the message are numbered from one. -/
def keystreamByte (key : Key) (nonce : Nonce) (position : Nat) : UInt8 :=
  (ChaCha20.block key.bytes (UInt32.ofNat (1 + position / 64)) nonce.bytes).getD (position % 64) 0

/-- The number that a tag stands for: the value of the polynomial that is made of the associated
data, the encrypted message and their sizes, and a summand that hides it. -/
def tagNumber (key : Key) (nonce : Nonce) (associated encrypted : List UInt8) : Nat :=
  let r := Poly1305.clamp (ofLittleEndian ((oneTimeKey key nonce).take 16))
  let s := ofLittleEndian (((oneTimeKey key nonce).drop 16).take 16)
  (Poly1305.polynomial (Poly1305.pieces (authenticated associated encrypted)) r % Poly1305.prime +
    s) % 2 ^ 128

/-- Some bytes are the encrypted form of a message: a byte for each of the message, combined with
that of the keystream, and the tag behind them. -/
structure Encrypts (key : Key) (nonce : Nonce) (associated message sealedBytes : List UInt8) :
    Prop where
  /-- The tag has sixteen bytes. -/
  length : sealedBytes.length = message.length + 16
  /-- Each byte of the message is combined with the keystream. -/
  body : ∀ i (h : i < message.length),
    sealedBytes[i]? = some (message[i] ^^^ keystreamByte key nonce i)
  /-- The tag is that of the encrypted message. -/
  tag : ofLittleEndian (sealedBytes.drop message.length) =
    tagNumber key nonce associated (sealedBytes.take message.length)

/-- A byte of an encrypted message. -/
theorem getElem?_crypt {i : Nat} (h : i < message.length) :
    (crypt key nonce message)[i]? = some (message[i] ^^^ keystreamByte key nonce i) := by
  have hlt : i % 64 <
      (ChaCha20.block key.bytes (UInt32.ofNat (1 + i / 64)) nonce.bytes).length := by
    rw [ChaCha20.length_block]
    exact Nat.mod_lt _ (by decide)
  unfold crypt ChaCha20.apply keystreamByte
  rw [List.getElem?_zipWith, ChaCha20.getElem?_keystream _ _ _ h, List.getElem?_eq_getElem h,
    List.getElem?_eq_getElem hlt, List.getD_eq_getElem?_getD, List.getElem?_eq_getElem hlt]
  rfl

theorem tag_eq (encrypted : List UInt8) :
    tag key nonce associated encrypted =
      toLittleEndian 16 (tagNumber key nonce associated encrypted) := by
  have hsixteen : (tag key nonce associated encrypted).length = 16 := length_tag ..
  rw [eq_toLittleEndian_iff hsixteen, tag, Poly1305.tag]
  simp only [Poly1305.evaluate_eq_sum, ofLittleEndian_toLittleEndian, tagNumber]
  norm_num

/-- What is made of a message is its encrypted form, and nothing else is. -/
theorem encrypts_iff :
    Encrypts key nonce associated message sealedBytes ↔
      sealedBytes = encrypt key nonce associated message := by
  have hlength := length_crypt key nonce message
  constructor
  · intro h
    -- the bytes are those of the message and those of the tag
    have htake : sealedBytes.take message.length = crypt key nonce message := by
      refine List.ext_getElem? fun i => ?_
      by_cases hi : i < message.length
      · rw [List.getElem?_take_of_lt hi, h.body i hi, getElem?_crypt hi]
      · rw [List.getElem?_eq_none (by rw [List.length_take]; omega),
          List.getElem?_eq_none (by omega)]
    have hdrop : sealedBytes.drop message.length =
        tag key nonce associated (crypt key nonce message) := by
      have hsixteen : (sealedBytes.drop message.length).length = 16 := by
        rw [List.length_drop, h.length]
        omega
      rw [tag_eq, eq_toLittleEndian_iff hsixteen, h.tag, htake, tagNumber]
      norm_num
    rw [encrypt, ← hdrop, ← htake, List.take_append_drop]
  · rintro rfl
    have htake : (encrypt key nonce associated message).take message.length =
        crypt key nonce message := List.take_left' hlength
    have hdrop : (encrypt key nonce associated message).drop message.length =
        tag key nonce associated (crypt key nonce message) := List.drop_left' hlength
    refine ⟨length_encrypt key nonce associated message, fun i hi => ?_, ?_⟩
    · rw [← getElem?_crypt hi, encrypt, List.getElem?_append_left (hlength.symm ▸ hi)]
    · rw [htake, hdrop, tag_eq, ofLittleEndian_toLittleEndian, tagNumber]
      norm_num

/-- The published test vector of the construction. -/
example : Encrypts ⟨(List.range 32).map fun i => UInt8.ofNat (0x80 + i), by simp⟩
    ⟨[0x07, 0x00, 0x00, 0x00, 0x40, 0x41, 0x42, 0x43, 0x44, 0x45, 0x46, 0x47], rfl⟩
    [0x50, 0x51, 0x52, 0x53, 0xc0, 0xc1, 0xc2, 0xc3, 0xc4, 0xc5, 0xc6, 0xc7]
    (Text.Utf8.ofString ("Ladies and Gentlemen of the class of '99: If I could offer you only " ++
      "one tip for the future, sunscreen would be it."))
    [0xd3, 0x1a, 0x8d, 0x34, 0x64, 0x8e, 0x60, 0xdb, 0x7b, 0x86, 0xaf, 0xbc, 0x53, 0xef, 0x7e,
      0xc2, 0xa4, 0xad, 0xed, 0x51, 0x29, 0x6e, 0x08, 0xfe, 0xa9, 0xe2, 0xb5, 0xa7, 0x36, 0xee,
      0x62, 0xd6, 0x3d, 0xbe, 0xa4, 0x5e, 0x8c, 0xa9, 0x67, 0x12, 0x82, 0xfa, 0xfb, 0x69, 0xda,
      0x92, 0x72, 0x8b, 0x1a, 0x71, 0xde, 0x0a, 0x9e, 0x06, 0x0b, 0x29, 0x05, 0xd6, 0xa5, 0xb6,
      0x7e, 0xcd, 0x3b, 0x36, 0x92, 0xdd, 0xbd, 0x7f, 0x2d, 0x77, 0x8b, 0x8c, 0x98, 0x03, 0xae,
      0xe3, 0x28, 0x09, 0x1b, 0x58, 0xfa, 0xb3, 0x24, 0xe4, 0xfa, 0xd6, 0x75, 0x94, 0x55, 0x85,
      0x80, 0x8b, 0x48, 0x31, 0xd7, 0xbc, 0x3f, 0xf4, 0xde, 0xf0, 0x8e, 0x4b, 0x7a, 0x9d, 0xe5,
      0x76, 0xd2, 0x65, 0x86, 0xce, 0xc6, 0x4b, 0x61, 0x16, 0x1a, 0xe1, 0x0b, 0x59, 0x4f, 0x09,
      0xe2, 0x6a, 0x7e, 0x90, 0x2e, 0xcb, 0xd0, 0x60, 0x06, 0x91] :=
  encrypts_iff.2 (by decide +kernel)

/-- The encrypted form of a message is decrypted to that message, and nothing else is. -/
theorem decrypt?_eq_some_iff :
    decrypt? key nonce associated sealedBytes = some message ↔
      sealedBytes = encrypt key nonce associated message := by
  unfold decrypt?
  split
  case isTrue hshort =>
    refine ⟨fun h => (Option.some_ne_none _ h.symm).elim, ?_⟩
    rintro rfl
    rw [length_encrypt] at hshort
    omega
  case isFalse =>
    dsimp only
    split
    case isTrue htag =>
      -- what stands before a right tag is encrypted by being decrypted again
      rw [Option.some_inj]
      constructor
      · rintro rfl
        rw [encrypt, crypt_crypt, ← htag, List.take_append_drop]
      · rintro rfl
        rw [length_encrypt, Nat.add_sub_cancel, encrypt, List.take_left' (length_crypt ..),
          crypt_crypt]
    case isFalse htag =>
      refine ⟨fun h => (Option.some_ne_none _ h.symm).elim, ?_⟩
      rintro rfl
      refine (htag ?_).elim
      rw [length_encrypt, Nat.add_sub_cancel, encrypt, List.take_left' (length_crypt ..),
        List.drop_left' (length_crypt ..)]

/-- What was encrypted decrypts under the same key, nonce and associated data. -/
theorem decrypt?_encrypt (key : Key) (nonce : Nonce) (associated message : List UInt8) :
    decrypt? key nonce associated (encrypt key nonce associated message) = some message :=
  decrypt?_eq_some_iff.2 rfl

/-- What is too short or has a wrong tag is refused, and nothing else is. -/
theorem decrypt?_eq_none_iff :
    decrypt? key nonce associated sealedBytes = none ↔
      sealedBytes.length < 16 ∨
        ofLittleEndian (sealedBytes.drop (sealedBytes.length - 16)) ≠
          tagNumber key nonce associated (sealedBytes.take (sealedBytes.length - 16)) := by
  unfold decrypt? tagSize
  by_cases hshort : sealedBytes.length < 16
  · simp [hshort]
  · have hsixteen : (sealedBytes.drop (sealedBytes.length - 16)).length = 16 := by
      rw [List.length_drop]
      omega
    have htag : sealedBytes.drop (sealedBytes.length - 16) =
        tag key nonce associated (sealedBytes.take (sealedBytes.length - 16)) ↔
        ofLittleEndian (sealedBytes.drop (sealedBytes.length - 16)) =
          tagNumber key nonce associated (sealedBytes.take (sealedBytes.length - 16)) := by
      rw [tag_eq, eq_toLittleEndian_iff hsixteen, tagNumber]
      norm_num
    simp [hshort, htag]

end Aead

end Keyring.Cipher
