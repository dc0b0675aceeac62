import Mathlib.Data.List.TakeWhile
import Keyring.Proofs.Ciphertext.Record
import Keyring.Proofs.Secret.Record

/-!
# Which texts are read as a secret

A secret is read from the digits of its bytes, in either case, between any blanks. All other bytes
are refused for the first reason that applies.

- `Text.Trims`, `trim_eq_iff`: what is left of a text without the blanks around it;
- `Text.HexDigit`, `Hex.decode_eq_ok_iff`, `Hex.decode_eq_error_iff`: the digits of some bytes, and
  the first byte that is no digit;
- `Secret.Spells`, `parse_eq_ok_iff`: the texts of a secret;
- `Secret.Refuses`, `ofRecord_eq_error_iff`: why bytes are refused;
- `parses_exactly_spellings`: all this together, and that reading undoes writing.
-/

namespace Keyring

namespace Text

/-- A text is a core with blanks around it, and the core has no blank at its ends. -/
def Trims (text core : List Char) : Prop :=
  (∃ before after, (∀ c ∈ before, isBlank c = true) ∧ (∀ c ∈ after, isBlank c = true) ∧
    text = before ++ core ++ after) ∧
  (∀ c ∈ core.head?, isBlank c = false) ∧ ∀ c ∈ core.getLast?, isBlank c = false

/-- The code of a hexadecimal digit of either case. -/
def HexDigit (code : Nat) : Prop :=
  (48 ≤ code ∧ code ≤ 57) ∨ (65 ≤ code ∧ code ≤ 70) ∨ (97 ≤ code ∧ code ≤ 102)

instance (code : Nat) : Decidable (HexDigit code) := by
  unfold HexDigit
  infer_instance

variable {text core : List Char} {c : Char}

/-! ### Blanks at the ends -/

theorem trimEnd_append {s after : List Char} (hafter : ∀ c ∈ after, isBlank c = true) :
    trimEnd (s ++ after) = trimEnd s := by
  unfold trimEnd
  rw [List.reverse_append,
    List.dropWhile_append_of_pos fun c hc => hafter c (List.mem_reverse.1 hc)]

theorem trimEnd_of_getLast? {s : List Char} (h : ∀ c ∈ s.getLast?, isBlank c = false) :
    trimEnd s = s := by
  unfold trimEnd
  rw [← List.head?_reverse] at h
  cases hs : s.reverse with
  | nil => simpa using (List.reverse_eq_nil_iff.1 hs).symm
  | cons c rest =>
    have hc : isBlank c = false := h c (by rw [hs, List.head?_cons, Option.mem_some])
    rw [List.dropWhile_cons_of_neg (by simp [hc]), ← hs, List.reverse_reverse]

/-- The first character that is left is no blank. -/
theorem head?_trimStart (s : List Char) : ∀ c ∈ (trimStart s).head?, isBlank c = false := by
  intro c hc
  have hhead := List.head?_dropWhile_not isBlank s
  rw [trimStart] at hc
  rw [Option.mem_def.1 hc] at hhead
  exact hhead

/-- The end of a text is blank, and the last character before it is not. -/
theorem exists_trimEnd_append (s : List Char) :
    (∃ after, (∀ c ∈ after, isBlank c = true) ∧ s = trimEnd s ++ after) ∧
      ∀ c ∈ (trimEnd s).getLast?, isBlank c = false := by
  refine ⟨⟨(s.reverse.takeWhile isBlank).reverse, fun c hc => ?_, ?_⟩, fun c hc => ?_⟩
  · exact List.mem_takeWhile_imp (List.mem_reverse.1 hc)
  · unfold trimEnd
    rw [← List.reverse_append, List.takeWhile_append_dropWhile, List.reverse_reverse]
  · rw [trimEnd, List.getLast?_reverse] at hc
    exact head?_trimStart s.reverse c hc

/-- Nothing is left of a text if all of it is blank. -/
theorem trim_eq_nil_iff : trim text = [] ↔ ∀ c ∈ text, isBlank c = true := by
  rw [trim, trimEnd, List.reverse_eq_nil_iff, List.dropWhile_eq_nil_iff]
  simp only [List.mem_reverse]
  constructor
  · intro hrest c hc
    -- what is blank at the front is blank, and so is all of the rest
    rw [← List.takeWhile_append_dropWhile (p := isBlank) (l := text)] at hc
    exact (List.mem_append.1 hc).elim List.mem_takeWhile_imp (hrest c)
  · intro hall c hc
    exact hall c ((List.dropWhile_sublist isBlank).subset hc)

/-- What is left of a text is its core. -/
theorem trim_eq_iff : trim text = core ↔ Trims text core := by
  constructor
  · rintro rfl
    obtain ⟨⟨after, hafter, hsplit⟩, hlast⟩ := exists_trimEnd_append (trimStart text)
    refine ⟨⟨text.takeWhile isBlank, after, fun c hc => List.mem_takeWhile_imp hc, hafter, ?_⟩,
      fun c hc => ?_, hlast⟩
    · rw [List.append_assoc, trim, ← hsplit]
      exact List.takeWhile_append_dropWhile.symm
    · -- a core that is not empty begins as the text does after its blanks
      refine head?_trimStart text c ?_
      rw [trim] at hc
      rw [hsplit, List.head?_append, Option.mem_def.1 hc]
      rfl
  · rintro ⟨⟨before, after, hbefore, hafter, rfl⟩, hhead, hlast⟩
    cases core with
    | nil =>
      have hblank : ∀ c ∈ before ++ [] ++ after, isBlank c = true := by
        intro c hc
        rw [List.append_nil] at hc
        exact (List.mem_append.1 hc).elim (hbefore c) (hafter c)
      exact trim_eq_nil_iff.2 hblank
    | cons c core =>
      have hc : isBlank c = false := hhead c rfl
      rw [trim, List.append_assoc, List.cons_append, trimStart_append_cons hbefore hc,
        ← List.cons_append, trimEnd_append hafter, trimEnd_of_getLast? hlast]

/-- A text without blanks is the core of any text that adds some around it. -/
theorem trim_append_append {before after : List Char} (hbefore : ∀ c ∈ before, isBlank c = true)
    (hafter : ∀ c ∈ after, isBlank c = true) (hcore : ∀ c ∈ core, isBlank c = false) :
    trim (before ++ core ++ after) = core :=
  trim_eq_iff.2 ⟨⟨before, after, hbefore, hafter, rfl⟩,
    fun c hc => hcore c (List.mem_of_mem_head? hc),
    fun c hc => hcore c (List.mem_of_mem_getLast? hc)⟩

/-! ### Digits -/

/-- Digits have no blanks around them. -/
theorem trims_self_of_digits (h : ∀ c ∈ core, HexDigit c.toNat) : Trims core core := by
  have hdark (c : Char) (hc : c ∈ core) : isBlank c = false := by
    by_contra hblank
    have hblanks : blanks.all (fun b => !decide (HexDigit b.toNat)) = true := by decide
    have hnone := List.all_eq_true.1 hblanks c (by simpa [isBlank] using hblank)
    simp [h c hc] at hnone
  exact trim_eq_iff.1 (trim_eq_self hdark)

/-- A digit takes one byte, its code. -/
theorem HexDigit.utf8EncodeChar (h : HexDigit c.toNat) :
    String.utf8EncodeChar c = [UInt8.ofNat c.toNat] := by
  have hsmall : c.val.toNat ≤ 127 := by
    unfold HexDigit Char.toNat at h
    omega
  unfold String.utf8EncodeChar
  rw [if_pos hsmall]
  rfl

/-- A character whose bytes are all codes of digits is a digit. -/
theorem HexDigit.of_utf8EncodeChar (h : ∀ b ∈ String.utf8EncodeChar c, HexDigit b.toNat) :
    HexDigit c.toNat := by
  unfold String.utf8EncodeChar at h
  simp only at h
  split_ifs at h with hone
  · have hc := h _ List.mem_cons_self
    rw [UInt8.toNat_ofNat', Nat.mod_eq_of_lt (by omega)] at hc
    exact hc
  -- the first byte of a longer character is no digit
  all_goals
    have hb := h _ List.mem_cons_self
    rw [UInt8.toNat_ofNat'] at hb
    unfold HexDigit at hb
    omega

/-- The bytes of digits are their codes. -/
theorem Utf8.encode_eq_map (h : ∀ c ∈ text, HexDigit c.toNat) :
    encode text = text.map fun c => UInt8.ofNat c.toNat := by
  induction text with
  | nil => rfl
  | cons c text ih =>
    rw [List.map_cons, ← ih fun d hd => h d (List.mem_cons_of_mem c hd), encode,
      List.flatMap_cons, (h c List.mem_cons_self).utf8EncodeChar]
    rfl

/-- A text whose bytes are all codes of digits consists of digits. -/
theorem HexDigit.of_encode (h : ∀ b ∈ Utf8.encode text, HexDigit b.toNat) :
    ∀ c ∈ text, HexDigit c.toNat := fun c hc =>
  of_utf8EncodeChar fun b hb => h b (List.mem_flatMap.2 ⟨c, hc, hb⟩)

namespace Hex

variable {bytes acc : List UInt8} {position : Nat} {fault : Fault}

/-- Some bytes are digits up to one that is not, which has a number of digits before it. -/
def FirstOther (bytes : List UInt8) (b : UInt8) (position : Nat) : Prop :=
  ∃ digits rest, bytes = digits ++ b :: rest ∧ digits.length = position ∧
    (∀ d ∈ digits, HexDigit d.toNat) ∧ ¬HexDigit b.toNat

theorem FirstOther.unique {b b' : UInt8} {position' : Nat} (h : FirstOther bytes b position)
    (h' : FirstOther bytes b' position') : b = b' ∧ position = position' := by
  have hsplit {b : UInt8} {position : Nat} (h : FirstOther bytes b position) :
      (bytes.takeWhile fun d => decide (HexDigit d.toNat)).length = position ∧
        (bytes.dropWhile fun d => decide (HexDigit d.toNat)).head? = some b := by
    obtain ⟨digits, rest, rfl, rfl, hdigits, hb⟩ := h
    rw [List.takeWhile_append_of_pos (by simpa using hdigits),
      List.dropWhile_append_of_pos (by simpa using hdigits),
      List.takeWhile_cons_of_neg (by simpa using hb),
      List.dropWhile_cons_of_neg (by simpa using hb), List.append_nil]
    exact ⟨rfl, rfl⟩
  obtain ⟨hposition, hb⟩ := hsplit h
  obtain ⟨hposition', hb'⟩ := hsplit h'
  exact ⟨Option.some.inj (hb.symm.trans hb'), hposition.symm.trans hposition'⟩

/-- The bytes that have a value are the codes of digits. -/
theorem value?_eq_none_iff {b : UInt8} : value? b = none ↔ ¬HexDigit b.toNat := by
  have hle (m n : UInt8) : m ≤ n ↔ m.toNat ≤ n.toNat := UInt8.le_iff_toNat_le
  unfold value? HexDigit
  simp only [Bool.and_eq_true, decide_eq_true_eq, hle, UInt8.reduceToNat]
  split_ifs <;> simp <;> omega

/-- The value of a digit is that of the same digit in lower case. -/
theorem exists_value? (h : HexDigit c.toNat) :
    ∃ n < 16, value? (UInt8.ofNat c.toNat) = some n ∧ digit n = c.toLower := by
  have hall : ∀ code < 103, HexDigit code →
      ∃ n < 16, value? (UInt8.ofNat code) = some n ∧ digit n = (Char.ofNat code).toLower := by
    decide
  have hsmall : c.toNat < 103 := by
    unfold HexDigit at h
    omega
  have hc := hall c.toNat hsmall h
  rwa [Char.ofNat_toNat] at hc

/-! ### Reading digits -/

/-- Pairs of digits are read as the bytes that they are the digits of. -/
theorem exists_decodeFrom : ∀ {text : List Char} (position : Nat) (acc : List UInt8),
    text.length % 2 = 0 → (∀ c ∈ text, HexDigit c.toNat) →
      ∃ bytes, decodeFrom position acc (Utf8.encode text) = .ok (acc.reverse ++ bytes) ∧
        encode bytes = text.map Char.toLower
  | [], position, acc, _, _ => ⟨[], by rw [List.append_nil]; rfl, rfl⟩
  | [c], _, _, heven, _ => by cases heven
  | high :: low :: text, position, acc, heven, hdigits => by
    have hhigh := hdigits high (by simp)
    have hlow := hdigits low (by simp)
    obtain ⟨x, hx, hxvalue, hxdigit⟩ := exists_value? hhigh
    obtain ⟨y, hy, hyvalue, hydigit⟩ := exists_value? hlow
    have hrest : text.length % 2 = 0 := by
      simp only [List.length_cons] at heven
      omega
    obtain ⟨bytes, hbytes, htext⟩ := exists_decodeFrom (position + 2)
      (UInt8.ofNat (16 * x + y) :: acc) hrest fun c hc => hdigits c (by simp [hc])
    refine ⟨UInt8.ofNat (16 * x + y) :: bytes, ?_, ?_⟩
    · have hencode : Utf8.encode (high :: low :: text) =
          UInt8.ofNat high.toNat :: UInt8.ofNat low.toNat :: Utf8.encode text := by
        rw [Utf8.encode, List.flatMap_cons, List.flatMap_cons, hhigh.utf8EncodeChar,
          hlow.utf8EncodeChar]
        rfl
      rw [hencode]
      simp only [decodeFrom, hxvalue, hyvalue, hbytes, List.reverse_cons, List.append_assoc,
        List.cons_append, List.nil_append]
    · -- the byte has the two values as its halves
      have hbyte : (UInt8.ofNat (16 * x + y)).toNat = 16 * x + y := by
        rw [UInt8.toNat_ofNat', Nat.mod_eq_of_lt (by omega)]
      rw [encode_cons, encodeByte, hbyte, htext, show (16 * x + y) / 16 = x by omega,
        show (16 * x + y) % 16 = y by omega, hxdigit, hydigit]
      rfl

/-- Pairs that are read are digits. -/
theorem digits_of_decodeFrom {text : List UInt8} (heven : text.length % 2 = 0)
    (h : decodeFrom position acc text = .ok bytes) : ∀ b ∈ text, HexDigit b.toNat := by
  fun_induction decodeFrom position acc text
  case case3 position acc a b rest x hx y hy ih =>
    have ha : HexDigit a.toNat := by simpa [hx] using value?_eq_none_iff (b := a)
    have hb : HexDigit b.toNat := by simpa [hy] using value?_eq_none_iff (b := b)
    simp only [List.length_cons] at heven
    simpa [ha, hb] using ih (by omega) h
  case case4 text _ _ hshort =>
    rcases text with _ | ⟨a, _ | ⟨b, rest⟩⟩
    · simp
    · simp at heven
    · exact absurd rfl (hshort a b rest)
  all_goals cases h

/-- Pairs that are not read have a first byte that is no digit. -/
theorem firstOther_of_decodeFrom {text : List UInt8}
    (h : decodeFrom position acc text = .error fault) :
    ∃ b before, FirstOther text b before ∧ fault = .invalidDigit b (position + before) := by
  fun_induction decodeFrom position acc text
  case case1 position acc a b rest ha =>
    refine ⟨a, 0, ⟨[], b :: rest, rfl, rfl, by simp, value?_eq_none_iff.1 ha⟩, ?_⟩
    exact (Except.error.inj h).symm
  case case2 position acc a b rest x ha hb =>
    have hdigit : HexDigit a.toNat := by simpa [ha] using value?_eq_none_iff (b := a)
    refine ⟨b, 1, ⟨[a], rest, rfl, rfl, by simpa using hdigit, value?_eq_none_iff.1 hb⟩, ?_⟩
    exact (Except.error.inj h).symm
  case case3 position acc a b rest x ha y hb ih =>
    have hdigit : HexDigit a.toNat := by simpa [ha] using value?_eq_none_iff (b := a)
    have hdigit' : HexDigit b.toNat := by simpa [hb] using value?_eq_none_iff (b := b)
    obtain ⟨other, before, ⟨digits, after, rfl, rfl, hdigits, hother⟩, rfl⟩ := ih h
    refine ⟨other, digits.length + 2, ⟨a :: b :: digits, after, rfl, rfl, ?_, hother⟩, ?_⟩
    · simpa [hdigit, hdigit'] using hdigits
    · rw [Nat.add_right_comm, Nat.add_assoc]
  case case4 => cases h

/-- Bytes are not hexadecimal if their number is odd, or else for the first that is no digit. -/
theorem decode_eq_error_iff {text : List UInt8} :
    decode text = .error fault ↔
      (text.length % 2 = 1 ∧ fault = .oddLength) ∨
        (text.length % 2 = 0 ∧ ∃ b before, FirstOther text b before ∧
          fault = .invalidDigit b before) := by
  unfold decode
  by_cases heven : text.length % 2 = 0
  case neg =>
    rw [if_neg heven]
    have hodd : text.length % 2 = 1 := by omega
    simp [hodd, eq_comm]
  case pos =>
    rw [if_pos heven]
    simp only [heven, true_and, Nat.zero_ne_one, false_and, false_or]
    constructor
    · intro h
      simpa using firstOther_of_decodeFrom h
    · rintro ⟨b, before, hfirst, rfl⟩
      -- what is read has digits only, and otherwise there is but one first byte that is none
      cases hread : decodeFrom 0 [] text with
      | ok bytes =>
        obtain ⟨digits, rest, rfl, -, -, hb⟩ := hfirst
        exact absurd (digits_of_decodeFrom heven hread b (by simp)) hb
      | error found =>
        obtain ⟨b', before', hfirst', rfl⟩ := firstOther_of_decodeFrom hread
        obtain ⟨rfl, rfl⟩ := hfirst.unique hfirst'
        rw [Nat.zero_add]

theorem exists_decode {text : List Char} (heven : text.length % 2 = 0)
    (hdigits : ∀ c ∈ text, HexDigit c.toNat) :
    ∃ bytes, decode (Utf8.encode text) = .ok bytes ∧ encode bytes = text.map Char.toLower := by
  obtain ⟨bytes, hread, hlower⟩ := exists_decodeFrom 0 [] heven hdigits
  refine ⟨bytes, ?_, hlower⟩
  rw [decode, Utf8.encode_eq_map hdigits, List.length_map, if_pos heven,
    ← Utf8.encode_eq_map hdigits, hread]
  rfl

/-- Digits of either case are two for each byte. -/
theorem length_of_lower {text : List Char} (h : text.map Char.toLower = encode bytes) :
    text.length = 2 * bytes.length := by
  rw [← List.length_map Char.toLower, h, length_encode]

/-- A text is hexadecimal if it consists of the digits of some bytes, in either case. -/
theorem decode_eq_ok_iff {text : List Char} :
    decode (Utf8.encode text) = .ok bytes ↔
      text.length % 2 = 0 ∧ (∀ c ∈ text, HexDigit c.toNat) ∧
        text.map Char.toLower = encode bytes := by
  constructor
  · intro h
    have heven : (Utf8.encode text).length % 2 = 0 := by
      by_contra hodd
      rw [decode, if_neg hodd] at h
      cases h
    have hdigits : ∀ c ∈ text, HexDigit c.toNat := by
      rw [decode, if_pos heven] at h
      exact HexDigit.of_encode (digits_of_decodeFrom heven h)
    rw [Utf8.encode_eq_map hdigits, List.length_map] at heven
    obtain ⟨read, hok, hlower⟩ := exists_decode heven hdigits
    obtain rfl := Except.ok.inj (hok.symm.trans h)
    exact ⟨heven, hdigits, hlower.symm⟩
  · rintro ⟨heven, hdigits, hlower⟩
    obtain ⟨read, hok, hlower'⟩ := exists_decode heven hdigits
    -- bytes are told by their digits
    have hsame := decode_encode read
    rw [hlower', hlower, decode_encode] at hsame
    rw [hok, hsame]

end Hex

end Text

namespace Secret

variable {record : List UInt8} {text : List Char} {s : Secret} {fault : Fault}

/-- A text spells a secret: it is an even number of digits between blanks, and in lower case they
are the digits of the secret. -/
def Spells (text : List Char) (s : Secret) : Prop :=
  ∃ core, Text.Trims text core ∧ core.length % 2 = 0 ∧ (∀ c ∈ core, Text.HexDigit c.toNat) ∧
    core.map Char.toLower = s.toHex.toList

/-- Why bytes are refused. Each reason takes it that those before do not apply. -/
inductive Refuses (record : List UInt8) : Fault → Prop where
  | notText (h : ∀ text, record ≠ Text.Utf8.encode text) : Refuses record .notText
  | oddLength {text core : List Char} (hrecord : record = Text.Utf8.encode text)
      (htrims : Text.Trims text core) (h : (Text.Utf8.encode core).length % 2 = 1) :
    Refuses record (.notHex .oddLength)
  | invalidDigit {text core : List Char} (hrecord : record = Text.Utf8.encode text)
      (htrims : Text.Trims text core) (heven : (Text.Utf8.encode core).length % 2 = 0) {b : UInt8}
      {position : Nat} (h : Text.Hex.FirstOther (Text.Utf8.encode core) b position) :
    Refuses record (.notHex (.invalidDigit b position))
  | empty {text : List Char} (hrecord : record = Text.Utf8.encode text)
      (h : Text.Trims text []) : Refuses record .empty
  | tooLong {text core : List Char} (hrecord : record = Text.Utf8.encode text)
      (htrims : Text.Trims text core) (heven : core.length % 2 = 0)
      (hdigits : ∀ c ∈ core, Text.HexDigit c.toNat) (h : 2 * 4096 < core.length) :
    Refuses record (.tooLong (core.length / 2))

/-- The texts of a secret are those that spell it. -/
theorem parse_eq_ok_iff : parse text = .ok s ↔ Spells text s := by
  have hhex : s.toHex.toList = Text.Hex.encode s.bytes := String.toList_ofList
  constructor
  · intro h
    unfold parse at h
    split at h
    · cases h
    case h_2 bytes hbytes =>
      obtain ⟨heven, hdigits, hlower⟩ := Text.Hex.decode_eq_ok_iff.1 hbytes
      refine ⟨_, Text.trim_eq_iff.1 rfl, heven, hdigits, ?_⟩
      rw [hlower, hhex, ofBytes_eq_ok_iff.1 h]
  · rintro ⟨core, htrims, heven, hdigits, hlower⟩
    have hread := Text.Hex.decode_eq_ok_iff.2 ⟨heven, hdigits, hlower.trans hhex⟩
    simp only [parse, Text.trim_eq_iff.2 htrims, hread, ofBytes_bytes]

theorem ofRecord_eq_ok_iff :
    ofRecord record = .ok s ↔ ∃ text, record = Text.Utf8.encode text ∧ Spells text s := by
  unfold ofRecord
  cases htext : Text.Utf8.decode? record with
  | none =>
    simp only [reduceCtorEq, false_iff, not_exists, not_and]
    intro text hrecord
    rw [Text.Utf8.decode?_eq_some_iff.2 hrecord] at htext
    cases htext
  | some text =>
    obtain rfl := Text.Utf8.decode?_eq_some_iff.1 htext
    constructor
    · intro h
      exact ⟨text, rfl, parse_eq_ok_iff.1 h⟩
    · rintro ⟨text', hsame, hspells⟩
      rw [← Text.Utf8.decode?_eq_some_iff, htext] at hsame
      obtain rfl := Option.some.inj hsame
      exact parse_eq_ok_iff.2 hspells

/-- The bytes of a text are refused for what is left of it. -/
theorem parse_eq_error (h : parse text = .error fault) :
    Refuses (Text.Utf8.encode text) fault := by
  have htrims : Text.Trims text (Text.trim text) := Text.trim_eq_iff.1 rfl
  unfold parse at h
  split at h
  case h_1 found hread =>
    obtain rfl := Except.error.inj h
    rcases Text.Hex.decode_eq_error_iff.1 hread with ⟨hodd, rfl⟩ | ⟨heven, b, position, hb, rfl⟩
    · exact .oddLength rfl htrims hodd
    · exact .invalidDigit rfl htrims heven hb
  case h_2 bytes hread =>
    obtain ⟨heven, hdigits, hlower⟩ := Text.Hex.decode_eq_ok_iff.1 hread
    have hlength : (Text.trim text).length = 2 * bytes.length := Text.Hex.length_of_lower hlower
    -- the text is digits, so that only their number is wrong
    rcases ofBytes_eq_error_iff.1 h with ⟨rfl, rfl⟩ | ⟨hlong, rfl⟩
    · rw [List.length_nil, Nat.mul_zero, List.length_eq_zero_iff] at hlength
      exact .empty rfl (hlength ▸ htrims)
    · have hsize : bytes.length = (Text.trim text).length / 2 := by omega
      rw [hsize]
      rw [maxSize] at hlong
      exact .tooLong rfl htrims heven hdigits (by omega)

theorem ofRecord_encode (text : List Char) : ofRecord (Text.Utf8.encode text) = parse text := by
  rw [ofRecord, Text.Utf8.decode?_encode]

/-- Bytes are refused for the first reason that applies. -/
theorem ofRecord_eq_error_iff : ofRecord record = .error fault ↔ Refuses record fault := by
  constructor
  · intro h
    cases htext : Text.Utf8.decode? record with
    | none =>
      rw [ofRecord, htext] at h
      obtain rfl := Except.error.inj h
      refine .notText fun text hrecord => ?_
      rw [Text.Utf8.decode?_eq_some_iff.2 hrecord] at htext
      cases htext
    | some text =>
      obtain rfl := Text.Utf8.decode?_eq_some_iff.1 htext
      exact parse_eq_error (ofRecord_encode text ▸ h)
  · intro h
    cases h with
    | notText h =>
      cases htext : Text.Utf8.decode? record with
      | none => rw [ofRecord, htext]
      | some text => exact absurd (Text.Utf8.decode?_eq_some_iff.1 htext) (h text)
    | oddLength hrecord htrims h =>
      rw [hrecord, ofRecord_encode, parse, Text.trim_eq_iff.2 htrims,
        Text.Hex.decode_eq_error_iff.2 (.inl ⟨h, rfl⟩)]
    | invalidDigit hrecord htrims heven h =>
      rw [hrecord, ofRecord_encode, parse, Text.trim_eq_iff.2 htrims,
        Text.Hex.decode_eq_error_iff.2 (.inr ⟨heven, _, _, h, rfl⟩)]
    | empty hrecord h =>
      rw [hrecord, ofRecord_encode, parse, Text.trim_eq_iff.2 h]
      rfl
    | @tooLong text core hrecord htrims heven hdigits h =>
      obtain ⟨bytes, hread, hlower⟩ := Text.Hex.exists_decode heven hdigits
      have hlength : core.length = 2 * bytes.length := Text.Hex.length_of_lower hlower.symm
      have hlong : maxSize < bytes.length := by
        rw [maxSize]
        omega
      have hsize : core.length / 2 = bytes.length := by omega
      rw [hrecord, ofRecord_encode, parse, Text.trim_eq_iff.2 htrims, hread, hsize]
      exact ofBytes_eq_error_iff.2 (.inr ⟨hlong, rfl⟩)

-- a character of two bytes counts as two, and is refused for its first
example : parse ['a', 'é'] = .error (.notHex .oddLength) := by decide
example : parse ['a', 'b', 'é'] = .error (.notHex (.invalidDigit 0xc3 2)) := by decide

/-- Blanks around the digits of a secret do not matter. -/
theorem parse_append_toHex_append {before after : List Char}
    (hbefore : ∀ c ∈ before, Text.isBlank c = true) (hafter : ∀ c ∈ after, Text.isBlank c = true)
    (s : Secret) : parse (before ++ s.toHex.toList ++ after) = .ok s := by
  have hdigits : ∀ c ∈ s.toHex.toList, Text.isBlank c = false := by
    intro c hc
    rw [toHex, Text.Hex.ofBytes, String.toList_ofList] at hc
    exact Text.Hex.isBlank_of_mem_encode hc
  have hparse := s.parse_toHex
  rw [parse, Text.trim_eq_self hdigits] at hparse
  rw [parse, Text.trim_append_append hbefore hafter hdigits]
  exact hparse

/-- **Secrets are read exactly.** Some bytes are read as a secret exactly if they are a text that
spells it, and all others are refused as malformed for the first reason that applies. So blanks
around the digits of a secret do not matter, the digits of a secret that is read are those of the
text in lower case, and they are read as the same secret again. -/
theorem parses_exactly_spellings :
    (∀ record s, ofRecord record = .ok s ↔
      ∃ text, record = Text.Utf8.encode text ∧ Spells text s) ∧
    (∀ record fault, ofRecord record = .error fault ↔ Refuses record fault) ∧
    (∀ record fault, Refuses record fault →
      (ofRecord record).mapError Fault.toError = .error (.malformedSecret fault.message)) ∧
    (∀ s before after, (∀ c ∈ before, Text.isBlank c = true) →
      (∀ c ∈ after, Text.isBlank c = true) →
        parse (before ++ s.toHex.toList ++ after) = .ok s) ∧
    ∀ text s, parse text = .ok s →
      s.toHex.toList = (Text.trim text).map Char.toLower ∧ parse s.toHex.toList = .ok s := by
  refine ⟨fun record s => ofRecord_eq_ok_iff, fun record fault => ofRecord_eq_error_iff,
    fun record fault h => ?_,
    fun s before after hbefore hafter => parse_append_toHex_append hbefore hafter s,
    fun text s h => ⟨?_, s.parse_toHex⟩⟩
  · rw [ofRecord_eq_error_iff.2 h]
    rfl
  · obtain ⟨core, htrims, -, -, hlower⟩ := parse_eq_ok_iff.1 h
    rw [Text.trim_eq_iff.2 htrims, hlower]

/-- A secret between blanks of one byte and of three. -/
theorem parses_exactly_spellings_blanks :
    let s : Secret := ⟨[0xab, 0x01], by decide, by decide⟩
    (∀ c ∈ ['\n', ' '], Text.isBlank c = true) ∧ (∀ c ∈ ['\u3000'], Text.isBlank c = true) ∧
      parse (['\n', ' '] ++ s.toHex.toList ++ ['\u3000']) = .ok s := by
  intro s
  have hbefore : ∀ c ∈ ['\n', ' '], Text.isBlank c = true := List.all_eq_true.1 (by decide)
  have hafter : ∀ c ∈ ['\u3000'], Text.isBlank c = true := List.all_eq_true.1 (by decide)
  exact ⟨hbefore, hafter, parses_exactly_spellings.2.2.2.1 s _ _ hbefore hafter⟩

end Secret

end Keyring
