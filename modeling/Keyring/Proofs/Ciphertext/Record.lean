import Mathlib.Tactic.SplitIfs
import Keyring.Ciphertext

/-!
# Records of ciphertexts

The record of a ciphertext is a JSON object of two string literals, the second one in base64.
Reading it gives the ciphertext back, as long as it names a master key and is not too large.

* `StringLiteral.parse?_encode` — a literal is read as its text, whatever follows it;
* `Base64.decode?_encode` — reading undoes writing;
* `parts?_render` — the parts of a record are read as they were written;
* `ofRecord_toRecord` — a ciphertext that is `Readable` is read back.
-/

namespace Keyring

namespace Json.StringLiteral

/-- What is read of the two digits that number a control character. -/
private theorem unit?_digits : ∀ n < 32,
    unit? '0' '0' (Text.Hex.digit (n / 16)) (Text.Hex.digit (n % 16)) = some n ∧
      isTrailing n = false ∧ isLeading n = false := by
  decide

/-- A written character is read as that character. -/
theorem scan_escape (c : Char) (acc rest : List Char) :
    scan acc (escape c ++ rest) = scan (c :: acc) rest := by
  unfold escape
  split_ifs with h1 h2 h3 h4 h5 h6 h7 h8
  -- seven characters have a letter of their own
  · subst h1; simp [scan, letter?]
  · subst h2; simp [scan, letter?]
  · subst h3; simp [scan, letter?]
  · subst h4; simp [scan, letter?]
  · subst h5; simp [scan, letter?]
  · subst h6; simp [scan, letter?]
  · subst h7; simp [scan, letter?]
  -- the other control characters are written as numbers
  · obtain ⟨hu, ht, hl⟩ := unit?_digits c.toNat h8
    simp [scan, hu, ht, hl, Char.ofNat_toNat]
  -- and any other character stands for itself
  · have hplain : ¬(c.toNat < 32 ∨ c = '\\') := not_or.2 ⟨h8, h2⟩
    rw [List.cons_append, List.nil_append, scan.eq_def]
    split
    case h_5 heq => cases heq; exact if_neg hplain
    all_goals simp_all

/-- The inside of a literal is read up to its closing quote. -/
theorem scan_flatMap_escape (s acc rest : List Char) :
    scan acc (s.flatMap escape ++ '"' :: rest) = some (acc.reverse ++ s, rest) := by
  induction s generalizing acc with
  | nil => simp [scan]
  | cons c s ih =>
    rw [List.flatMap_cons, List.append_assoc, scan_escape, ih]
    simp

/-- A literal is read as its text, whatever follows it. -/
theorem parse?_encode (s rest : List Char) : parse? (encode s ++ rest) = some (s, rest) := by
  have h := scan_flatMap_escape s [] rest
  simpa [parse?, encode] using h

end Json.StringLiteral

/-- What all characters have whose numbers are in a range has one whose number is. -/
theorem Text.of_range {P : Char → Prop} {c : Char} {low high : Nat}
    (hc : low ≤ c.toNat ∧ c.toNat ≤ high) (h : ∀ k ≤ high, low ≤ k → P (Char.ofNat k)) : P c := by
  have hself := h c.toNat hc.2 hc.1
  rwa [Char.ofNat_toNat] at hself

namespace Text.Base64

/-- A digit is read as its value and is no padding. -/
private theorem digit_facts : ∀ n < 64, value? (digit n) = some n ∧ digit n ≠ '=' := by
  decide

/-- What was written before stays in front. -/
theorem encodeFrom_eq_append (acc : List Char) :
    ∀ bytes, encodeFrom acc bytes = acc.reverse ++ encodeFrom [] bytes
  | a :: b :: c :: rest => by
    simp only [encodeFrom]
    rw [encodeFrom_eq_append (_ :: _ :: _ :: _ :: acc) rest,
      encodeFrom_eq_append [_, _, _, _] rest]
    simp
  | [a, b] => by simp [encodeFrom]
  | [a] => by simp [encodeFrom]
  | [] => by simp [encodeFrom]

/-- Four digits without padding are read as three bytes, at the end of the text or before it. -/
theorem decodeFrom_digits (acc : List UInt8) (text : List Char) {x y z w : Nat} (hx : x < 64)
    (hy : y < 64) (hz : z < 64) (hw : w < 64) :
    decodeFrom acc (digit x :: digit y :: digit z :: digit w :: text) =
      decodeFrom (UInt8.ofNat ((((x * 64 + y) * 64 + z) * 64 + w) % 256) ::
        UInt8.ofNat ((((x * 64 + y) * 64 + z) * 64 + w) / 256 % 256) ::
        UInt8.ofNat ((((x * 64 + y) * 64 + z) * 64 + w) / 65536) :: acc) text := by
  obtain ⟨hx, -⟩ := digit_facts x hx
  obtain ⟨hy, -⟩ := digit_facts y hy
  obtain ⟨hz, hz'⟩ := digit_facts z hz
  obtain ⟨hw, hw'⟩ := digit_facts w hw
  cases text with
  | nil => simp [decodeFrom, decodeLast, hx, hy, hz, hw, hz', hw']
  | cons c text => simp [decodeFrom, hx, hy, hz, hw]

/-- Reading the written form of some bytes adds them to those read before. -/
private theorem decodeFrom_encodeFrom (acc : List UInt8) :
    ∀ bytes, decodeFrom acc (encodeFrom [] bytes) = some (acc.reverse ++ bytes)
  | a :: b :: c :: rest => by
    have ha := a.toNat_lt
    have hb := b.toNat_lt
    have hc := c.toNat_lt
    simp only [encodeFrom]
    -- the four digits give the number that the three bytes make
    generalize hn : (a.toNat * 256 + b.toNat) * 256 + c.toNat = n
    have hjoin : ((n / 262144 * 64 + n / 4096 % 64) * 64 + n / 64 % 64) * 64 + n % 64 = n := by
      omega
    have ha' : UInt8.ofNat (n / 65536) = a := by
      rw [show n / 65536 = a.toNat by omega, UInt8.ofNat_toNat]
    have hb' : UInt8.ofNat (n / 256 % 256) = b := by
      rw [show n / 256 % 256 = b.toNat by omega, UInt8.ofNat_toNat]
    have hc' : UInt8.ofNat (n % 256) = c := by
      rw [show n % 256 = c.toNat by omega, UInt8.ofNat_toNat]
    rw [encodeFrom_eq_append]
    simp only [List.reverse_cons, List.reverse_nil, List.nil_append, List.cons_append]
    rw [decodeFrom_digits acc _ (by omega) (by omega) (by omega) (by omega), hjoin, ha', hb', hc',
      decodeFrom_encodeFrom _ rest]
    simp
  | [a, b] => by
    have ha := a.toNat_lt
    have hb := b.toNat_lt
    simp only [encodeFrom]
    -- the last two bits of the third digit are zero
    generalize hn : (a.toNat * 256 + b.toNat) * 4 = n
    obtain ⟨hx, -⟩ := digit_facts (n / 4096) (by omega)
    obtain ⟨hy, -⟩ := digit_facts (n / 64 % 64) (by omega)
    obtain ⟨hz, hz'⟩ := digit_facts (n % 64) (by omega)
    have ha' : UInt8.ofNat (((n / 4096 * 64 + n / 64 % 64) * 16 + n % 64 / 4) / 256) = a := by
      rw [show _ / 256 = a.toNat by omega, UInt8.ofNat_toNat]
    have hb' : UInt8.ofNat (((n / 4096 * 64 + n / 64 % 64) * 16 + n % 64 / 4) % 256) = b := by
      rw [show _ % 256 = b.toNat by omega, UInt8.ofNat_toNat]
    have hzero : n % 64 % 4 = 0 := by omega
    simp [decodeFrom, decodeLast, hx, hy, hz, hz', hzero, ha', hb']
  | [a] => by
    have ha := a.toNat_lt
    simp only [encodeFrom]
    -- the last four bits of the second digit are zero
    generalize hn : a.toNat * 16 = n
    obtain ⟨hx, -⟩ := digit_facts (n / 64) (by omega)
    obtain ⟨hy, -⟩ := digit_facts (n % 64) (by omega)
    have ha' : UInt8.ofNat (n / 64 * 4 + n % 64 / 16) = a := by
      rw [show n / 64 * 4 + n % 64 / 16 = a.toNat by omega, UInt8.ofNat_toNat]
    have hzero : n % 64 % 16 = 0 := by omega
    simp only [decodeFrom, decodeLast, List.reverse_cons, List.reverse_nil, List.nil_append,
      List.cons_append, hx, hy, Option.bind_eq_bind, Option.bind_some, and_self, if_true, hzero,
      Option.map_some, ha']
  | [] => by simp [encodeFrom, decodeFrom]

/-- Reading undoes writing. -/
theorem decode?_encode (bytes : List UInt8) : decode? (encode bytes) = some bytes :=
  decodeFrom_encodeFrom [] bytes

/-- The written form consists of digits and padding. -/
theorem mem_encodeFrom_nil {c : Char} :
    ∀ bytes, c ∈ encodeFrom [] bytes → c = '=' ∨ ∃ n < 64, c = digit n
  | x :: y :: z :: rest => by
    intro h
    have hx := x.toNat_lt
    have hy := y.toNat_lt
    have hz := z.toNat_lt
    rw [encodeFrom, encodeFrom_eq_append, List.mem_append] at h
    rcases h with h | h
    · simp only [List.reverse_cons, List.reverse_nil, List.nil_append, List.cons_append,
        List.mem_cons, List.not_mem_nil, or_false] at h
      rcases h with rfl | rfl | rfl | rfl
      all_goals exact .inr ⟨_, by omega, rfl⟩
    · exact mem_encodeFrom_nil rest h
  | [x, y] => by
    intro h
    have hx := x.toNat_lt
    have hy := y.toNat_lt
    simp only [encodeFrom, List.reverse_cons, List.reverse_nil, List.nil_append, List.cons_append,
      List.mem_cons, List.not_mem_nil, or_false] at h
    rcases h with rfl | rfl | rfl | rfl
    case inr.inr.inr => exact .inl rfl
    all_goals exact .inr ⟨_, by omega, rfl⟩
  | [x] => by
    intro h
    have hx := x.toNat_lt
    simp only [encodeFrom, List.reverse_cons, List.reverse_nil, List.nil_append, List.cons_append,
      List.mem_cons, List.not_mem_nil, or_false] at h
    rcases h with rfl | rfl | rfl | rfl
    case inr.inr.inl | inr.inr.inr => exact .inl rfl
    all_goals exact .inr ⟨_, by omega, rfl⟩
  | [] => by simp [encodeFrom]

/-- A JSON string literal shows the written form as it is. -/
theorem flatMap_escape_encode (bytes : List UInt8) :
    (encode bytes).flatMap Json.StringLiteral.escape = encode bytes := by
  have hplain : ∀ n < 64, Json.StringLiteral.escape (digit n) = [digit n] := by decide
  have hself : ∀ c ∈ encode bytes, Json.StringLiteral.escape c = [c] := by
    intro c hc
    rcases mem_encodeFrom_nil bytes hc with rfl | ⟨n, hn, rfl⟩
    · decide
    · exact hplain n hn
  generalize encode bytes = text at hself ⊢
  induction text with
  | nil => rfl
  | cons c text ih =>
    rw [List.flatMap_cons, hself c List.mem_cons_self,
      ih fun d hd => hself d (List.mem_cons_of_mem c hd)]
    rfl

end Text.Base64

namespace Json

theorem skipSpace_cons {c : Char} (h : isSpace c = false) (s : List Char) :
    skipSpace (c :: s) = c :: s := by
  simp [skipSpace, h]

theorem skipSpace_encode (s rest : List Char) :
    skipSpace (StringLiteral.encode s ++ rest) = StringLiteral.encode s ++ rest :=
  skipSpace_cons rfl _

end Json

namespace Ciphertext

open Json

/-- A written member is read as its name and text, whatever follows it. -/
theorem member?_encode {name : List Char} {part : Part} (hpart : Part.ofName? name = some part)
    (text : List Char) {c : Char} (hc : isSpace c = false) (rest : List Char) :
    member? (StringLiteral.encode name ++ ':' :: (StringLiteral.encode text ++ c :: rest)) =
      some (part, text, c :: rest) := by
  have hcolon : isSpace ':' = false := rfl
  simp only [member?, StringLiteral.parse?_encode, hpart, skipSpace_cons hcolon, skipSpace_encode,
    skipSpace_cons hc, Option.bind_eq_bind, Option.bind_some]
  rfl

/-- The text of a record after its opening brace. -/
def inside (c : Ciphertext) : List Char :=
  StringLiteral.encode "key".toList ++ ':' :: (StringLiteral.encode c.key.toList ++ ',' ::
    (StringLiteral.encode "bytes".toList ++ ':' ::
      (StringLiteral.encode (Text.Base64.encode c.bytes) ++ ['\x7d'])))

/-- The text of a record is an object of two members. -/
theorem render_eq (c : Ciphertext) : c.render = '\x7b' :: c.inside := by
  -- base64 needs no escapes, so that it stands between its quotes as it is
  have htext : StringLiteral.encode (Text.Base64.encode c.bytes) =
      '"' :: (Text.Base64.encode c.bytes ++ ['"']) := by
    rw [StringLiteral.encode, Text.Base64.flatMap_escape_encode]
  have h : c.render = ('\x7b' :: (StringLiteral.encode "key".toList ++ [':'])) ++
      StringLiteral.encode c.key.toList ++
      (',' :: (StringLiteral.encode "bytes".toList ++ [':', '"'])) ++
      Text.Base64.encode c.bytes ++ ['"', '\x7d'] := rfl
  rw [h, inside, htext]
  simp only [List.append_assoc, List.cons_append, List.nil_append]

/-- No record is empty. -/
theorem length_toRecord_pos (c : Ciphertext) : 0 < c.toRecord.length := by
  rw [toRecord, render_eq, Text.Utf8.encode, List.flatMap_cons, List.length_append]
  have hbrace : 0 < (String.utf8EncodeChar '\x7b').length := by decide
  omega

/-- The members of a record are read as they were written. -/
theorem object?_inside (c : Ciphertext) :
    object? c.inside = some (⟨c.key.toList, Text.Base64.encode c.bytes⟩, []) := by
  have hkeyName : Part.ofName? "key".toList = some .key := by decide
  have hbytesName : Part.ofName? "bytes".toList = some .bytes := by decide
  have hkey := member?_encode hkeyName c.key.toList (c := ',') rfl
  have hbytes := member?_encode hbytesName (Text.Base64.encode c.bytes) (c := '\x7d') rfl
  rw [inside, object?.eq_2 _ (by intro rest h; cases h), hkey]
  simp only [Option.bind_eq_bind, Option.bind_some]
  rw [skipSpace_encode, hbytes]
  rfl

/-- The parts of a record are read as they were written. -/
theorem parts?_render (c : Ciphertext) :
    parts? c.render = some ⟨c.key.toList, Text.Base64.encode c.bytes⟩ := by
  -- no white space is written
  have hinside : skipSpace c.inside = c.inside := skipSpace_encode _ _
  rw [parts?, render_eq, skipSpace_cons rfl]
  simp only [Option.bind_eq_bind]
  rw [hinside, object?_inside]
  rfl

/-- A ciphertext is read back if it can be, and otherwise refused. -/
theorem decode_toRecord (c : Ciphertext) :
    decode c.toRecord =
      if maxRecordSize < c.toRecord.length then .error .tooLarge
      else if c.key = "" then .error .missingKey
      else .ok c := by
  have hparts : (Text.Utf8.decode? c.toRecord).bind parts? =
      some ⟨c.key.toList, Text.Base64.encode c.bytes⟩ := by
    rw [toRecord, Text.Utf8.decode?_encode, Option.bind_some, parts?_render]
  have hempty : c.key.toList = [] ↔ c.key = "" := String.toList_eq_nil_iff
  unfold decode
  simp only [hparts, hempty, Text.Base64.decode?_encode, String.ofList_toList]

/-- A ciphertext that names a master key and whose record is not too large. -/
structure Readable (c : Ciphertext) : Prop where
  /-- It names a master key. -/
  key_ne : c.key ≠ ""
  /-- Its record is not too large. -/
  size_le : c.toRecord.length ≤ maxRecordSize

instance (c : Ciphertext) : Decidable c.Readable :=
  decidable_of_iff (c.key ≠ "" ∧ c.toRecord.length ≤ maxRecordSize)
    ⟨fun h => ⟨h.1, h.2⟩, fun h => ⟨h.key_ne, h.size_le⟩⟩

/-- A readable ciphertext is read back. -/
theorem ofRecord_toRecord {c : Ciphertext} (h : c.Readable) : ofRecord c.toRecord = .ok c := by
  have hdecode := c.decode_toRecord
  rw [if_neg (Nat.not_lt.2 h.size_le), if_neg h.key_ne] at hdecode
  rw [ofRecord, hdecode]

end Ciphertext

end Keyring
