import Keyring.Config
import Mathlib.Tactic.SplitIfs

/-!
# Text through bytes that may be no text

Bytes are read as text by the first byte of each character, which tells how many follow and what the
second may be. The bytes of a text are read as that text again.

- `decodeLossy_one`, `decodeLossy_two`, `decodeLossy_three`, `decodeLossy_four`: one character, by
  its first byte;
- `decodeLossy_encode`, `pathText_ofString`: nothing is replaced in the bytes of a text.
-/

namespace Keyring

namespace Text.Utf8

variable {a b c d : UInt8} {n : Nat}

theorem toNat_ofNat (h : n < 256) : (UInt8.ofNat n).toNat = n := by
  rw [UInt8.toNat_ofNat', Nat.mod_eq_of_lt h]

/-! ### Bytes after the first -/

theorem isContinuation_iff : isContinuation b = true ↔ 128 ≤ b.toNat ∧ b.toNat ≤ 191 := by
  simp only [isContinuation, Bool.and_eq_true, decide_eq_true_eq, UInt8.le_iff_toNat_le]
  rfl

theorem isSecondOfThree_iff : isSecondOfThree a b = true ↔
    isContinuation b = true ∧ (a.toNat = 224 → 160 ≤ b.toNat) ∧
      (a.toNat = 237 → b.toNat ≤ 159) := by
  have hlow : a = 0xe0 ↔ a.toNat = 224 := UInt8.toNat_inj.symm
  have hhigh : a = 0xed ↔ a.toNat = 237 := UInt8.toNat_inj.symm
  simp only [isSecondOfThree, beq_iff_eq, hlow, hhigh, isContinuation_iff]
  split_ifs with h h'
  all_goals
    simp only [Bool.and_eq_true, decide_eq_true_eq, UInt8.le_iff_toNat_le, UInt8.reduceToNat,
      isContinuation_iff]
    omega

theorem isSecondOfFour_iff : isSecondOfFour a b = true ↔
    isContinuation b = true ∧ (a.toNat = 240 → 144 ≤ b.toNat) ∧
      (a.toNat = 244 → b.toNat ≤ 143) := by
  have hlow : a = 0xf0 ↔ a.toNat = 240 := UInt8.toNat_inj.symm
  have hhigh : a = 0xf4 ↔ a.toNat = 244 := UInt8.toNat_inj.symm
  simp only [isSecondOfFour, beq_iff_eq, hlow, hhigh, isContinuation_iff]
  split_ifs with h h'
  all_goals
    simp only [Bool.and_eq_true, decide_eq_true_eq, UInt8.le_iff_toNat_le, UInt8.reduceToNat,
      isContinuation_iff]
    omega

/-- The bytes after the first carry six bits each. -/
theorem continuation_ofNat (n : Nat) : isContinuation (UInt8.ofNat (n % 64 + 128)) = true ∧
    (UInt8.ofNat (n % 64 + 128)).toNat = n % 64 + 128 ∧
    payload (UInt8.ofNat (n % 64 + 128)) = n % 64 := by
  have hnat : (UInt8.ofNat (n % 64 + 128)).toNat = n % 64 + 128 := toNat_ofNat (by omega)
  refine ⟨isContinuation_iff.2 ?_, hnat, ?_⟩
  · omega
  · rw [payload, hnat]
    omega

/-! ### One character -/

theorem not_lt_of_le (h : 128 ≤ a.toNat) : ¬a < 0x80 :=
  fun hlt => Nat.not_le_of_lt (UInt8.lt_iff_toNat_lt.1 hlt) h

theorem decodeLossy_one (h : a.toNat < 128) (rest : List UInt8) :
    decodeLossy (a :: rest) = Char.ofNat a.toNat :: decodeLossy rest := by
  rw [decodeLossy.eq_def]
  exact if_pos (UInt8.lt_iff_toNat_lt.2 h)

theorem decodeLossy_two (ha : 194 ≤ a.toNat ∧ a.toNat ≤ 223) (hb : isContinuation b = true)
    (rest : List UInt8) : decodeLossy (a :: b :: rest) =
      Char.ofNat (a.toNat % 32 * 64 + payload b) :: decodeLossy rest := by
  have hone : ¬a < 0x80 := not_lt_of_le (by omega)
  rw [decodeLossy.eq_def]
  simp [hone, hb, UInt8.le_iff_toNat_le, ha]

theorem decodeLossy_three (ha : 224 ≤ a.toNat ∧ a.toNat ≤ 239) (hb : isSecondOfThree a b = true)
    (hc : isContinuation c = true) (rest : List UInt8) : decodeLossy (a :: b :: c :: rest) =
      Char.ofNat ((a.toNat % 16 * 64 + payload b) * 64 + payload c) :: decodeLossy rest := by
  have hone : ¬a < 0x80 := not_lt_of_le (by omega)
  have htwo : ¬a.toNat ≤ 223 := by omega
  rw [decodeLossy.eq_def]
  simp [hone, htwo, hb, hc, UInt8.le_iff_toNat_le, ha]

theorem decodeLossy_four (ha : 240 ≤ a.toNat ∧ a.toNat ≤ 244) (hb : isSecondOfFour a b = true)
    (hc : isContinuation c = true) (hd : isContinuation d = true) (rest : List UInt8) :
    decodeLossy (a :: b :: c :: d :: rest) =
      Char.ofNat (((a.toNat % 8 * 64 + payload b) * 64 + payload c) * 64 + payload d) ::
        decodeLossy rest := by
  have hone : ¬a < 0x80 := not_lt_of_le (by omega)
  have htwo : ¬a.toNat ≤ 223 := by omega
  have hthree : ¬a.toNat ≤ 239 := by omega
  rw [decodeLossy.eq_def]
  simp [hone, htwo, hthree, hb, hc, hd, UInt8.le_iff_toNat_le, ha]

/-- The bytes of a character are read as that character. -/
theorem decodeLossy_utf8EncodeChar (c : Char) (rest : List UInt8) :
    decodeLossy (String.utf8EncodeChar c ++ rest) = c :: decodeLossy rest := by
  have hrange : c.val.toNat < 0xd800 ∨ 0xdfff < c.val.toNat ∧ c.val.toNat < 0x110000 := c.valid
  have hsame (n : Nat) (h : n = c.val.toNat) : Char.ofNat n = c := h ▸ Char.ofNat_toNat c
  unfold String.utf8EncodeChar
  generalize c.val.toNat = v at hrange hsame
  obtain ⟨hlast, -, hlast'⟩ := continuation_ofNat v
  obtain ⟨hnext, hnextNat, hnext'⟩ := continuation_ofNat (v / 64)
  obtain ⟨hthird, hthirdNat, hthird'⟩ := continuation_ofNat (v / 4096)
  dsimp only
  split_ifs with hone htwo hthree
  · have ha : (UInt8.ofNat v).toNat = v := toNat_ofNat (by omega)
    rw [List.singleton_append, decodeLossy_one (by omega), ha, hsame v rfl]
  · have ha : (UInt8.ofNat (v / 64 % 32 + 192)).toNat = v / 64 % 32 + 192 := toNat_ofNat (by omega)
    simp only [List.cons_append, List.nil_append]
    rw [decodeLossy_two (by omega) hlast, ha, hlast', hsame _ (by omega)]
  · have ha : (UInt8.ofNat (v / 4096 % 16 + 224)).toNat = v / 4096 % 16 + 224 :=
      toNat_ofNat (by omega)
    simp only [List.cons_append, List.nil_append]
    -- the second byte keeps out shorter characters and surrogates
    rw [decodeLossy_three (by omega) (isSecondOfThree_iff.2 ⟨hnext, by omega, by omega⟩) hlast, ha,
      hnext', hlast', hsame _ (by omega)]
  · have ha : (UInt8.ofNat (v / 262144 % 8 + 240)).toNat = v / 262144 % 8 + 240 :=
      toNat_ofNat (by omega)
    simp only [List.cons_append, List.nil_append]
    rw [decodeLossy_four (by omega) (isSecondOfFour_iff.2 ⟨hthird, by omega, by omega⟩) hnext hlast,
      ha, hthird', hnext', hlast', hsame _ (by omega)]

/-- Nothing is replaced in the bytes of a text. -/
@[simp] theorem decodeLossy_encode (s : List Char) : decodeLossy (encode s) = s := by
  induction s with
  | nil => rfl
  | cons c s ih =>
    rw [encode, List.flatMap_cons, decodeLossy_utf8EncodeChar]
    exact congrArg (c :: ·) ih

end Text.Utf8

/-- A path that is text is shown as that text. -/
@[simp] theorem Config.pathText_ofString (s : String) : pathText (Text.Utf8.ofString s) = s := by
  rw [pathText, Text.Utf8.ofString, Text.Utf8.decodeLossy_encode, String.ofList_toList]

end Keyring
