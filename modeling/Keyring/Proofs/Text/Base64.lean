import Keyring.Proofs.Ciphertext.Record

/-!
# The one written form of bytes

Base64 is read strictly, so that no text but the written form of some bytes is read at all.

- `encode_group`, `decodeLast_eq_some`: a group of four digits is the one that its bytes are written
  as, before the end of the text or at it;
- `decode?_eq_some_iff`: the bytes of a text are those whose written form it is;
- `length_encode`: the written form has four characters for each three bytes that are begun.
-/

namespace Keyring.Text.Base64

variable {acc bytes last : List UInt8} {text : List Char} {a b c d : Char} {n x y z w : Nat}

theorem value?_eq_some_iff : value? c = some n ↔ n < 64 ∧ c = digit n := by
  have hdigits : ∀ n < 64, value? (digit n) = some n := by decide
  constructor
  · intro h
    unfold value? at h
    split_ifs at h with hupper hlower hnumeral hplus hslash
    -- a digit of one of three ranges is the one of that number
    · obtain rfl := Option.some.inj h
      exact Text.of_range (P := fun c => c.toNat - 65 < 64 ∧ c = digit (c.toNat - 65)) hupper
        (by decide)
    · obtain rfl := Option.some.inj h
      exact Text.of_range (P := fun c => c.toNat - 71 < 64 ∧ c = digit (c.toNat - 71)) hlower
        (by decide)
    · obtain rfl := Option.some.inj h
      exact Text.of_range (P := fun c => c.toNat + 4 < 64 ∧ c = digit (c.toNat + 4)) hnumeral
        (by decide)
    -- and the last two digits are characters of their own
    · exact Option.some.inj h ▸ ⟨by decide, hplus⟩
    · exact Option.some.inj h ▸ ⟨by decide, hslash⟩
  · rintro ⟨hn, rfl⟩
    exact hdigits n hn

/-- The three bytes of four digits are written as those digits. -/
theorem encode_group (hx : x < 64) (hy : y < 64) (hz : z < 64) (hw : w < 64)
    (hn : ((x * 64 + y) * 64 + z) * 64 + w = n) (bytes : List UInt8) :
    encode (UInt8.ofNat (n / 65536) :: UInt8.ofNat (n / 256 % 256) :: UInt8.ofNat (n % 256) ::
      bytes) = digit x :: digit y :: digit z :: digit w :: encode bytes := by
  have hjoin : ((UInt8.ofNat (n / 65536)).toNat * 256 + (UInt8.ofNat (n / 256 % 256)).toNat) * 256 +
      (UInt8.ofNat (n % 256)).toNat = n := by
    simp only [UInt8.toNat_ofNat']
    omega
  rw [encode, encodeFrom, hjoin, encodeFrom_eq_append, show n / 262144 = x by omega,
    show n / 4096 % 64 = y by omega, show n / 64 % 64 = z by omega, show n % 64 = w by omega]
  rfl

/-- The last group of four is the one that its bytes are written as. -/
theorem decodeLast_eq_some (h : decodeLast a b c d = some last) : encode last = [a, b, c, d] := by
  unfold decodeLast at h
  simp only [Option.bind_eq_bind, Option.bind_eq_some_iff, value?_eq_some_iff] at h
  obtain ⟨x, ⟨hx, rfl⟩, y, ⟨hy, rfl⟩, h⟩ := h
  split at h
  case isTrue hpad =>
    -- one byte, and two signs of padding
    obtain ⟨rfl, rfl⟩ := hpad
    split at h
    case isFalse => cases h
    case isTrue hzero =>
      obtain rfl := Option.some.inj h
      simp only [encode, encodeFrom, List.reverse_cons, List.reverse_nil, List.nil_append,
        List.cons_append, UInt8.toNat_ofNat']
      rw [show (x * 4 + y / 16) % 2 ^ 8 * 16 / 64 = x by omega,
        show (x * 4 + y / 16) % 2 ^ 8 * 16 % 64 = y by omega]
  case isFalse hpad =>
    simp only [Option.bind_eq_some_iff, value?_eq_some_iff] at h
    obtain ⟨z, ⟨hz, rfl⟩, h⟩ := h
    split at h
    case isTrue hpad =>
      -- two bytes, and one sign of padding
      subst d
      split at h
      case isFalse => cases h
      case isTrue hzero =>
        obtain rfl := Option.some.inj h
        simp only [encode, encodeFrom, List.reverse_cons, List.reverse_nil, List.nil_append,
          List.cons_append, UInt8.toNat_ofNat']
        generalize hn : (x * 64 + y) * 16 + z / 4 = n
        rw [show (n / 256 % 2 ^ 8 * 256 + n % 256 % 2 ^ 8) * 4 = n * 4 by omega,
          show n * 4 / 4096 = x by omega, show n * 4 / 64 % 64 = y by omega,
          show n * 4 % 64 = z by omega]
    case isFalse =>
      simp only [Option.bind_eq_some_iff, value?_eq_some_iff] at h
      obtain ⟨w, ⟨hw, rfl⟩, h⟩ := h
      obtain rfl := Option.some.inj h
      exact encode_group hx hy hz hw rfl []

/-- What is read after some bytes is read off their written form. -/
theorem exists_of_decodeFrom (h : decodeFrom acc text = some bytes) :
    ∃ added, bytes = acc.reverse ++ added ∧ text = encode added := by
  fun_induction decodeFrom acc text
  case case1 => exact ⟨[], by simpa using (Option.some.inj h).symm, rfl⟩
  case case2 a b c d =>
    obtain ⟨last, hlast, rfl⟩ := Option.map_eq_some_iff.1 h
    exact ⟨last, rfl, (decodeLast_eq_some hlast).symm⟩
  case case3 a b c d rest _ x y z w hw hz hy hx n ih =>
    simp only [value?_eq_some_iff] at hx hy hz hw
    obtain ⟨added, rfl, rfl⟩ := ih h
    have hgroup := encode_group hx.1 hy.1 hz.1 hw.1 rfl added
    rw [← hx.2, ← hy.2, ← hz.2, ← hw.2] at hgroup
    exact ⟨_, by simp [n], hgroup.symm⟩
  all_goals cases h

/-- **Canonicity.** The bytes of a text are those whose written form it is. -/
theorem decode?_eq_some_iff : decode? text = some bytes ↔ text = encode bytes := by
  constructor
  · intro h
    obtain ⟨added, rfl, htext⟩ := exists_of_decodeFrom h
    exact htext
  · rintro rfl
    exact decode?_encode bytes

/-- The written form has four characters for each three bytes that are begun. -/
theorem length_encode : ∀ bytes, (encode bytes).length = 4 * ((bytes.length + 2) / 3)
  | a :: b :: c :: rest => by
    have ih : (encodeFrom [] rest).length = 4 * ((rest.length + 2) / 3) := length_encode rest
    rw [encode, encodeFrom, encodeFrom_eq_append]
    simp only [List.length_append, List.length_reverse, List.length_cons, List.length_nil, ih]
    omega
  | [a, b] => by simp [encode, encodeFrom]
  | [a] => by simp [encode, encodeFrom]
  | [] => rfl

end Keyring.Text.Base64
