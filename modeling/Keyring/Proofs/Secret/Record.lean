import Mathlib.Data.List.Flatten
import Keyring.Secret
import Keyring.Store.Step

/-!
# Records of secrets

A secret is stored as its lower-case hexadecimal digits. Reading them gives the secret back.

* `Hex.decode_encode` — reading undoes writing for any sequence of bytes;
* `trim_eq_self` — a text without blanks loses nothing to `trim`;
* `ofRecord_plainRecord` — the record of a secret is read as that secret;
* `size_le_of_ofRecord` — a short record is not that of a long secret.
-/

namespace Keyring

namespace Text

/-- A text without blanks loses nothing at its ends. -/
theorem trim_eq_self {s : List Char} (h : ∀ c ∈ s, isBlank c = false) : trim s = s := by
  have hstart {l : List Char} (hl : ∀ c ∈ l, isBlank c = false) : l.dropWhile isBlank = l := by
    cases l with
    | nil => rfl
    | cons c l => simp [hl c List.mem_cons_self]
  unfold trim trimStart trimEnd
  rw [hstart h, hstart (l := s.reverse) (by simpa using h), List.reverse_reverse]

theorem trimStart_append_cons {blanks : List Char} {c : Char}
    (hblanks : ∀ b ∈ blanks, isBlank b = true) (hc : isBlank c = false) (s : List Char) :
    trimStart (blanks ++ c :: s) = c :: s := by
  unfold trimStart
  rw [List.dropWhile_append_of_pos hblanks, List.dropWhile_cons_of_neg (by simp [hc])]

namespace Hex

/-- The byte of a digit, and the number that is read from it. -/
private theorem digit_facts : ∀ n < 16,
    String.utf8EncodeChar (digit n) = [(digit n).toNat.toUInt8] ∧
      value? (digit n).toNat.toUInt8 = some n ∧ isBlank (digit n) = false := by
  decide

theorem isBlank_of_mem_encode {bytes : List UInt8} {c : Char} (h : c ∈ encode bytes) :
    isBlank c = false := by
  obtain ⟨b, -, hc⟩ := List.mem_flatMap.1 h
  have hb := b.toNat_lt
  simp only [encodeByte, List.mem_cons, List.not_mem_nil, or_false] at hc
  rcases hc with rfl | rfl
  · exact (digit_facts _ (by omega)).2.2
  · exact (digit_facts _ (by omega)).2.2

/-- The digits of a byte take one byte each. -/
private theorem utf8_encodeByte (b : UInt8) :
    Utf8.encode (encodeByte b) =
      [(digit (b.toNat / 16)).toNat.toUInt8, (digit (b.toNat % 16)).toNat.toUInt8] := by
  have hb := b.toNat_lt
  have hhigh := (digit_facts (b.toNat / 16) (by omega)).1
  have hlow := (digit_facts (b.toNat % 16) (by omega)).1
  simp only [Utf8.encode, encodeByte, List.flatMap_cons, List.flatMap_nil, hhigh, hlow]
  rfl

/-- Reading the digits of some bytes adds them to those read before. -/
private theorem decodeFrom_encode (bytes : List UInt8) (position : Nat) (acc : List UInt8) :
    decodeFrom position acc (Utf8.encode (encode bytes)) = .ok (acc.reverse ++ bytes) := by
  induction bytes generalizing position acc with
  | nil => simp [encode, Utf8.encode, decodeFrom]
  | cons b bytes ih =>
    have hb := b.toNat_lt
    have hx := (digit_facts (b.toNat / 16) (by omega)).2.1
    have hy := (digit_facts (b.toNat % 16) (by omega)).2.1
    -- the two digits give the byte that they were written for
    have hbyte : UInt8.ofNat (16 * (b.toNat / 16) + b.toNat % 16) = b := by
      rw [Nat.div_add_mod, UInt8.ofNat_toNat]
    rw [encode_cons, Utf8.encode_append, utf8_encodeByte]
    simp only [List.cons_append, List.nil_append, decodeFrom, hx, hy, hbyte, ih]
    simp

/-- The text of some bytes takes two bytes for each. -/
@[simp] theorem length_utf8_encode (bytes : List UInt8) :
    (Utf8.encode (encode bytes)).length = 2 * bytes.length := by
  induction bytes with
  | nil => rfl
  | cons b bytes ih =>
    rw [encode_cons, Utf8.encode_append, utf8_encodeByte, List.length_append, ih, List.length_cons]
    simp
    omega

/-- Reading undoes writing. -/
theorem decode_encode (bytes : List UInt8) : decode (Utf8.encode (encode bytes)) = .ok bytes := by
  unfold decode
  rw [length_utf8_encode, if_pos (Nat.mul_mod_right 2 _), decodeFrom_encode]
  rfl

/-- Each byte is read from two. -/
theorem length_of_decodeFrom {position : Nat} {acc text bytes : List UInt8}
    (h : decodeFrom position acc text = .ok bytes) :
    2 * bytes.length ≤ 2 * acc.length + text.length := by
  fun_induction decodeFrom position acc text
  -- one more byte for two more digits
  case case3 ih =>
    have hread := ih h
    simp only [List.length_cons] at *
    omega
  -- the end of the text
  case case4 =>
    obtain rfl := Except.ok.inj h
    simp only [List.length_reverse]
    omega
  all_goals cases h

/-- A text is not shorter than what is read of it. -/
theorem length_of_decode {text bytes : List UInt8} (h : decode text = .ok bytes) :
    2 * bytes.length ≤ text.length := by
  unfold decode at h
  split at h
  · simpa using length_of_decodeFrom h
  · cases h

end Hex

/-- Removing blanks removes characters only. -/
theorem trim_sublist (s : List Char) : (trim s).Sublist s := by
  have hend : ((trimStart s).reverse.dropWhile isBlank).reverse.Sublist (trimStart s) := by
    simpa using (List.dropWhile_sublist isBlank (l := (trimStart s).reverse)).reverse
  exact hend.trans (List.dropWhile_sublist isBlank)

end Text

namespace Secret

/-- Bytes are refused as a secret if there are none or too many. -/
theorem ofBytes_eq_error_iff {bytes : List UInt8} {fault : Fault} :
    ofBytes bytes = .error fault ↔
      (bytes = [] ∧ fault = .empty) ∨ (maxSize < bytes.length ∧ fault = .tooLong bytes.length) := by
  unfold ofBytes
  constructor
  · intro h
    split at h
    case isTrue hempty => exact .inl ⟨hempty, (Except.error.inj h).symm⟩
    case isFalse =>
      split at h
      · cases h
      case isFalse hlong => exact .inr ⟨Nat.not_le.1 hlong, (Except.error.inj h).symm⟩
  · rintro (⟨rfl, rfl⟩ | ⟨hlong, rfl⟩)
    · rfl
    · have hne : bytes ≠ [] := List.ne_nil_of_length_pos (Nat.zero_lt_of_lt hlong)
      rw [dif_neg hne, dif_neg (Nat.not_le.2 hlong)]

/-- The digits of a secret are read as that secret. -/
theorem parse_toHex (s : Secret) : parse s.toHex.toList = .ok s := by
  unfold parse toHex Text.Hex.ofBytes
  rw [String.toList_ofList, Text.trim_eq_self fun _ hc => Text.Hex.isBlank_of_mem_encode hc,
    Text.Hex.decode_encode]
  exact ofBytes_bytes s

/-- A record takes at least two bytes for each byte of the secret that is read from it. -/
theorem size_le_of_ofRecord {record : List UInt8} {s : Secret} (h : ofRecord record = .ok s) :
    2 * s.size ≤ record.length := by
  unfold ofRecord at h
  split at h
  · cases h
  case h_2 text htext =>
    obtain rfl := Text.Utf8.decode?_eq_some_iff.1 htext
    unfold parse at h
    split at h
    · cases h
    case h_2 bytes hbytes =>
      rw [size, ofBytes_eq_ok_iff.1 h]
      -- the digits are what is left of the record without the blanks around them
      have hread := Text.Hex.length_of_decode hbytes
      have hshorter := ((Text.trim_sublist text).flatMap String.utf8EncodeChar).length_le
      exact Nat.le_trans hread hshorter

end Secret

namespace Store

/-- The record of a secret is read as that secret. -/
theorem ofRecord_plainRecord (s : Secret) : Secret.ofRecord (plainRecord s) = .ok s := by
  unfold Secret.ofRecord plainRecord Text.Utf8.ofString
  rw [Text.Utf8.decode?_encode]
  exact s.parse_toHex

/-- The record of a secret holds two digits for each of its bytes. -/
theorem length_plainRecord (s : Secret) : (plainRecord s).length = 2 * s.size := by
  unfold plainRecord Text.Utf8.ofString Secret.toHex Text.Hex.ofBytes Secret.size
  rw [String.toList_ofList, Text.Hex.length_utf8_encode]

end Store

end Keyring
