import Keyring.Proofs.Text.Base64

/-!
# The round trip of a ciphertext

The text of a ciphertext is read back as the ciphertext exactly if it names a master key and the
text is not too large. The size is that of the text, in which a character of the name may take six
times the room that it takes alone.

- `length_toRecord`: the size of the text;
- `length_escape_le`, `length_toRecord_le`: what escapes may add to it;
- `display_round_trip`: when the text is read back.
-/

namespace Keyring

namespace Text

/-- The bytes of a string are as many as its size says. -/
theorem Utf8.length_ofString (s : String) : (ofString s).length = s.utf8ByteSize := by
  have hbytes : s.toByteArray = (ofString s).toByteArray := by
    rw [← String.ofList_toList (s := s), String.toByteArray_ofList, ofString, String.toList_ofList]
    rfl
  rw [← String.size_toByteArray, hbytes, List.size_toByteArray]

/-- A character takes its own room in front of a text. -/
theorem Utf8.length_encode_cons (c : Char) (s : List Char) :
    (encode (c :: s)).length = c.utf8Size + (encode s).length := by
  simp only [encode, List.flatMap_cons, List.length_append, String.length_utf8EncodeChar]

/-- A text of characters that take one byte each takes one byte for each. -/
theorem Utf8.length_encode_of_ascii {s : List Char} (h : ∀ c ∈ s, c.utf8Size = 1) :
    (encode s).length = s.length := by
  induction s with
  | nil => rfl
  | cons c s ih =>
    have hrest := ih fun d hd => h d (List.mem_cons_of_mem c hd)
    rw [length_encode_cons, h c List.mem_cons_self, hrest, List.length_cons, Nat.add_comm]

/-- The written form takes one byte for each character. -/
theorem Base64.length_utf8_encode (bytes : List UInt8) :
    (Utf8.encode (encode bytes)).length = 4 * ((bytes.length + 2) / 3) := by
  have hdigits : ∀ n < 64, (digit n).utf8Size = 1 := by decide
  have hone : ∀ c ∈ encode bytes, c.utf8Size = 1 := by
    intro c hc
    rcases mem_encodeFrom_nil bytes hc with rfl | ⟨n, hn, rfl⟩
    · rfl
    · exact hdigits n hn
  rw [Utf8.length_encode_of_ascii hone, length_encode]

end Text

namespace Ciphertext

open Json (StringLiteral.escape)

/-- A character takes no more than six times its own room. -/
theorem length_escape_le (c : Char) :
    (Text.Utf8.encode (StringLiteral.escape c)).length ≤ 6 * c.utf8Size := by
  have hpos := c.utf8Size_pos
  unfold StringLiteral.escape
  split_ifs with h1 h2 h3 h4 h5 h6 h7 h8
  -- seven characters have a letter of their own
  iterate 7 exact Nat.le_trans (by decide) (Nat.mul_le_mul_left 6 hpos)
  -- the other control characters are written as numbers
  · have hdigits : ∀ n < 16, (Text.Hex.digit n).utf8Size = 1 := by decide
    have hhigh := hdigits (c.toNat / 16) (by omega)
    have hlow := hdigits (c.toNat % 16) (by omega)
    have hsix : (Text.Utf8.encode ['\\', 'u', '0', '0', Text.Hex.digit (c.toNat / 16),
        Text.Hex.digit (c.toNat % 16)]).length = 6 := by
      simp only [Text.Utf8.length_encode_cons, hhigh, hlow]
      rfl
    omega
  -- and any other character stands for itself
  · rw [Text.Utf8.length_encode_cons, show (Text.Utf8.encode []).length = 0 from rfl]
    omega

/-- The size of the text of a ciphertext. -/
theorem length_toRecord (c : Ciphertext) :
    c.toRecord.length = 21 +
      (Text.Utf8.encode (c.key.toList.flatMap StringLiteral.escape)).length +
        4 * ((c.bytes.length + 2) / 3) := by
  have hrender : c.render = "\x7b\"key\":".toList ++
      (['"'] ++ c.key.toList.flatMap StringLiteral.escape ++ ['"']) ++
      ",\"bytes\":\"".toList ++ Text.Base64.encode c.bytes ++ "\"\x7d".toList := rfl
  have hopening : (Text.Utf8.encode "\x7b\"key\":".toList).length = 7 :=
    Text.Utf8.length_ofString _
  have hbetween : (Text.Utf8.encode ",\"bytes\":\"".toList).length = 10 :=
    Text.Utf8.length_ofString _
  have hclosing : (Text.Utf8.encode "\"\x7d".toList).length = 2 :=
    Text.Utf8.length_ofString _
  have hquote : (Text.Utf8.encode ['"']).length = 1 := rfl
  rw [toRecord, hrender]
  simp only [Text.Utf8.encode_append, List.length_append, hopening, hbetween, hclosing, hquote,
    Text.Base64.length_utf8_encode]
  omega

/-- The size of the text of a ciphertext, at most. -/
theorem length_toRecord_le (c : Ciphertext) :
    c.toRecord.length ≤ 21 + 6 * c.key.utf8ByteSize + 4 * ((c.bytes.length + 2) / 3) := by
  have hescaped (s : List Char) :
      (Text.Utf8.encode (s.flatMap StringLiteral.escape)).length ≤
        6 * (Text.Utf8.encode s).length := by
    induction s with
    | nil => exact Nat.le_refl 0
    | cons c s ih =>
      have hc := length_escape_le c
      rw [Text.Utf8.length_encode_cons, List.flatMap_cons, Text.Utf8.encode_append,
        List.length_append]
      omega
  have hkey := hescaped c.key.toList
  rw [← Text.Utf8.ofString, Text.Utf8.length_ofString] at hkey
  rw [length_toRecord]
  omega

/-- **The round trip.** The text of a ciphertext is read back as the ciphertext exactly if it names
a master key and the text is not too large, and otherwise it is malformed. -/
theorem display_round_trip (key : String) (bytes : List UInt8) :
    (ofRecord (Text.Utf8.ofString (display ⟨key, bytes⟩)) = .ok ⟨key, bytes⟩ ↔
      key ≠ "" ∧ (display ⟨key, bytes⟩).utf8ByteSize ≤ maxRecordSize) ∧
    (¬(key ≠ "" ∧ (display ⟨key, bytes⟩).utf8ByteSize ≤ maxRecordSize) ↔
      ofRecord (Text.Utf8.ofString (display ⟨key, bytes⟩)) = .error .malformedCiphertext) := by
  generalize hc : (⟨key, bytes⟩ : Ciphertext) = c
  obtain rfl : key = c.key := by rw [← hc]
  have hrecord : Text.Utf8.ofString c.display = c.toRecord := by
    rw [Text.Utf8.ofString, display, String.toList_ofList, toRecord]
  have hread := c.decode_toRecord
  rw [← Text.Utf8.length_ofString, hrecord, ofRecord, hread]
  by_cases hlarge : maxRecordSize < c.toRecord.length
  case pos => simp [hlarge]
  case neg =>
    by_cases hkey : c.key = ""
    case pos => simp [hlarge, hkey]
    case neg => simp [hlarge, hkey, Nat.not_lt.1 hlarge]

end Ciphertext

end Keyring
