import Keyring.Proofs.Secret.Record

/-!
# Secrets of one size

What is shown of a secret tells at most its size, and so does what becomes of a part of its record:
it is read as a secret of half as many bytes, or refused with the same words.

- `SameResult`: the same failure, or successes with values that are alike;
- `Secret.Alike`: two secrets of one size, which are shown alike;
- `ofRecord_take_plainRecord`, `ofRecord_take_alike`: what is read of a part of a record.
-/

namespace Keyring

/-- Two results are the same failure, or successes with values that are alike. -/
inductive SameResult {ε α β : Type} (R : α → β → Prop) : Except ε α → Except ε β → Prop where
  | ok {a : α} {b : β} (h : R a b) : SameResult R (.ok a) (.ok b)
  | error (fault : ε) : SameResult R (.error fault) (.error fault)

theorem SameResult.fault_eq {ε α β : Type} {R : α → β → Prop} {fault fault' : ε}
    (h : SameResult R (.error fault) (.error fault')) : fault = fault' := by
  cases h
  rfl

/-- Two secrets have the same number of bytes. -/
def Secret.Alike (x y : Secret) : Prop := x.size = y.size

namespace Secret.Alike

variable {x y : Secret}

theorem refl (x : Secret) : x.Alike x := rfl

theorem display_eq (_ : x.Alike y) : x.display = y.display := rfl

theorem debug_eq (h : x.Alike y) : x.debug = y.debug := by
  unfold Secret.Alike at h
  unfold debug
  rw [h]

end Secret.Alike

/-- As many bytes are alike as secrets. -/
theorem Secret.ofBytes_alike {a b : List UInt8} (h : a.length = b.length) :
    SameResult Secret.Alike (ofBytes a) (ofBytes b) := by
  have hnil : a = [] ↔ b = [] := by rw [← List.length_eq_zero_iff, h, List.length_eq_zero_iff]
  unfold ofBytes
  simp only [hnil, h]
  split
  · exact .error _
  · split
    · exact .ok h
    · exact .error _

namespace Text.Hex

/-- The digits of some of the bytes come first. -/
theorem take_encode (bytes : List UInt8) (n : Nat) :
    (encode bytes).take (2 * n) = encode (bytes.take n) := by
  induction bytes generalizing n with
  | nil => simp
  | cons b bytes ih =>
    cases n with
    | zero => rfl
    | succ n =>
      rw [List.take_succ_cons, encode_cons, encode_cons, ← ih n, Nat.mul_succ, encodeByte]
      rfl

/-- Each digit takes one byte. -/
theorem length_utf8EncodeChar_of_mem_encode {bytes : List UInt8} {c : Char}
    (h : c ∈ encode bytes) : (String.utf8EncodeChar c).length = 1 := by
  obtain ⟨b, -, hc⟩ := List.mem_flatMap.1 h
  have hdigit (n : Nat) (hn : n < 16) : (String.utf8EncodeChar (digit n)).length = 1 := by
    revert n
    decide
  have hb := b.toNat_lt
  simp only [encodeByte, List.mem_cons, List.not_mem_nil, or_false] at hc
  rcases hc with rfl | rfl
  · exact hdigit _ (by omega)
  · exact hdigit _ (by omega)

end Text.Hex

/-- A part of a text whose characters take one byte each is the text of a part. -/
theorem Text.Utf8.take_encode {text : List Char}
    (h : ∀ c ∈ text, (String.utf8EncodeChar c).length = 1) (n : Nat) :
    (encode text).take n = encode (text.take n) := by
  induction text generalizing n with
  | nil => simp [encode]
  | cons c text ih =>
    obtain ⟨byte, hbyte⟩ := List.length_eq_one_iff.1 (h c List.mem_cons_self)
    cases n with
    | zero => rfl
    | succ n =>
      have hrest := ih (fun d hd => h d (List.mem_cons_of_mem c hd)) n
      simp only [encode, List.flatMap_cons, hbyte, List.take_succ_cons, List.cons_append,
        List.nil_append] at hrest ⊢
      rw [hrest]

namespace Store

variable {x y : Secret}

/-- What is read of a part of the record of a secret. -/
theorem ofRecord_take_plainRecord (x : Secret) {n : Nat} (h : n ≤ 2 * x.size) :
    Secret.ofRecord ((plainRecord x).take n) =
      if n % 2 = 0 then Secret.ofBytes (x.bytes.take (n / 2)) else .error (.notHex .oddLength) := by
  have htext : plainRecord x = Text.Utf8.encode (Text.Hex.encode x.bytes) := by
    rw [plainRecord, Text.Utf8.ofString, Secret.toHex, Text.Hex.ofBytes, String.toList_ofList]
  have hbytes (c : Char) (hc : c ∈ Text.Hex.encode x.bytes) :
      (String.utf8EncodeChar c).length = 1 := Text.Hex.length_utf8EncodeChar_of_mem_encode hc
  have hlength : ((plainRecord x).take n).length = n := by
    rw [List.length_take, length_plainRecord, Nat.min_eq_left h]
  have htrim : Text.trim ((Text.Hex.encode x.bytes).take n) = (Text.Hex.encode x.bytes).take n :=
    Text.trim_eq_self fun c hc => Text.Hex.isBlank_of_mem_encode (List.mem_of_mem_take hc)
  rw [htext, Text.Utf8.take_encode hbytes] at hlength ⊢
  unfold Secret.ofRecord Secret.parse
  rw [Text.Utf8.decode?_encode]
  simp only [htrim]
  by_cases heven : n % 2 = 0
  · obtain ⟨k, rfl⟩ : ∃ k, n = 2 * k := ⟨n / 2, by omega⟩
    rw [if_pos heven, Text.Hex.take_encode, Text.Hex.decode_encode,
      Nat.mul_div_cancel_left k Nat.two_pos]
  · rw [if_neg heven, Text.Hex.decode, hlength, if_neg heven]

/-- As many bytes of the records of two secrets of one size are read alike. -/
theorem ofRecord_take_alike (h : x.Alike y) (n : Nat) :
    SameResult Secret.Alike (Secret.ofRecord ((plainRecord x).take n))
      (Secret.ofRecord ((plainRecord y).take n)) := by
  unfold Secret.Alike at h
  rw [List.take_eq_take_min, List.take_eq_take_min (l := plainRecord y), length_plainRecord,
    length_plainRecord, ← h]
  generalize hn : min n (2 * x.size) = k
  have hk : k ≤ 2 * x.size := hn ▸ Nat.min_le_right _ _
  rw [ofRecord_take_plainRecord x hk, ofRecord_take_plainRecord y (h ▸ hk)]
  split
  case isTrue =>
    refine Secret.ofBytes_alike ?_
    rw [List.length_take, List.length_take]
    exact congrArg _ h
  case isFalse => exact .error _

end Store

end Keyring
