import Keyring.KeyFile
import Keyring.Proofs.Secret.Parsing

/-!
# What a key file holds

A key file is a text of 64 hexadecimal digits of either case, with any blanks around them. Every
such text holds one key, and every other content is refused for the first reason that applies.

- `WellFormed`, `Holds`: the contents of key files, and the key that one holds;
- `exists_holds_iff`: every content of a key file holds a key;
- `Refuses`: why a content is refused, in the words of the error;
- `decode_eq_ok_iff`, `decode_eq_error_iff`: what is read of a content;
- `Holds.unique`, `holds_content`: a content holds one key, and what is written for a key holds it.
-/

namespace Keyring.KeyFile

open Text (HexDigit Trims)

variable {content : List UInt8} {key key' : Cipher.Key} {path message : String} {error : Error}

/-- A content is a text of 64 digits between blanks. -/
def WellFormed (content : List UInt8) : Prop :=
  ∃ text core, content = Text.Utf8.encode text ∧ Trims text core ∧ core.length = 64 ∧
    ∀ c ∈ core, HexDigit c.toNat

/-- A content holds a key: it is a text of 64 digits between blanks, and in lower case they are the
digits of the key. -/
def Holds (content : List UInt8) (key : Cipher.Key) : Prop :=
  ∃ text core, content = Text.Utf8.encode text ∧ Trims text core ∧ core.length = 64 ∧
    (∀ c ∈ core, HexDigit c.toNat) ∧ core.map Char.toLower = Text.Hex.encode key.bytes

/-- Why a content is refused, and what the error says. Each reason takes it that those before do not
apply. -/
inductive Refuses (path : String) (content : List UInt8) : String → Prop where
  | notText (h : ∀ text, content ≠ Text.Utf8.encode text) :
    Refuses path content ("Failed to read key file " ++ path ++ ": " ++ FileFault.notText.message)
  | notHex {text core : List Char} {fault : Text.Hex.Fault}
    (hcontent : content = Text.Utf8.encode text)
      (htrims : Trims text core) (h : Text.Hex.decode (Text.Utf8.encode core) = .error fault) :
    Refuses path content ("Key file " ++ path ++ " is not valid hex: " ++ fault.message)
  | size {text core : List Char} (hcontent : content = Text.Utf8.encode text)
      (htrims : Trims text core) (heven : core.length % 2 = 0)
      (hdigits : ∀ c ∈ core, HexDigit c.toNat) (h : core.length ≠ 64) :
    Refuses path content ("Key file " ++ path ++ " must hold " ++ toString keySize ++
      " bytes, got " ++ toString (core.length / 2))

/-- Every key file holds a key. -/
theorem exists_holds_iff : (∃ key, Holds content key) ↔ WellFormed content := by
  constructor
  · rintro ⟨key, text, core, hcontent, htrims, hlength, hdigits, -⟩
    exact ⟨text, core, hcontent, htrims, hlength, hdigits⟩
  · rintro ⟨text, core, hcontent, htrims, hlength, hdigits⟩
    obtain ⟨bytes, -, hlower⟩ := Text.Hex.exists_decode (by omega) hdigits
    -- two digits stand for one byte
    have hsize : bytes.length = keySize := by
      rw [Text.Hex.length_of_lower hlower.symm] at hlength
      unfold keySize
      omega
    exact ⟨⟨bytes, hsize⟩, text, core, hcontent, htrims, hlength, hdigits, hlower.symm⟩

/-- A key is read of the contents that hold it. -/
theorem decode_eq_ok_iff : decode path content = .ok key ↔ Holds content key := by
  unfold decode
  constructor
  · intro h
    split at h
    · cases h
    case h_2 text htext =>
      obtain rfl := Text.Utf8.decode?_eq_some_iff.1 htext
      split at h
      · cases h
      case h_2 bytes hbytes =>
        obtain ⟨-, hdigits, hlower⟩ := Text.Hex.decode_eq_ok_iff.1 hbytes
        split at h
        case isTrue hsize =>
          obtain rfl := Except.ok.inj h
          have hlength : (Text.trim text).length = 64 := by
            rw [Text.Hex.length_of_lower hlower, hsize]
            rfl
          exact ⟨text, _, rfl, Text.trim_eq_iff.1 rfl, hlength, hdigits, hlower⟩
        · cases h
  · rintro ⟨text, core, rfl, htrims, hlength, hdigits, hlower⟩
    have hread := Text.Hex.decode_eq_ok_iff.2 ⟨by omega, hdigits, hlower⟩
    simp only [Text.Utf8.decode?_encode, Text.trim_eq_iff.2 htrims, hread]
    exact dif_pos key.length_eq

/-- What is wrong with a content is told. -/
theorem Refuses.decode_eq (h : Refuses path content message) :
    decode path content = .error (.invalidConfig message) := by
  cases h with
  | notText h =>
    have htext : Text.Utf8.decode? content = none := by
      rw [Option.eq_none_iff_forall_ne_some]
      exact fun text hsome => h text (Text.Utf8.decode?_eq_some_iff.1 hsome)
    simp only [decode, htext]
  | notHex hcontent htrims h =>
    subst hcontent
    simp only [decode, Text.Utf8.decode?_encode, Text.trim_eq_iff.2 htrims, h]
  | @size text core hcontent htrims heven hdigits h =>
    subst hcontent
    obtain ⟨bytes, hread, hlower⟩ := Text.Hex.exists_decode heven hdigits
    have hlength : core.length = 2 * bytes.length := Text.Hex.length_of_lower hlower.symm
    have hsize : bytes.length ≠ keySize := by
      unfold keySize
      omega
    simp only [decode, Text.Utf8.decode?_encode, Text.trim_eq_iff.2 htrims, hread]
    rw [dif_neg hsize, hlength, Nat.mul_div_cancel_left _ Nat.two_pos]

/-- A content is refused with what is wrong with it. -/
theorem decode_eq_error_iff :
    decode path content = .error error ↔
      ∃ message, Refuses path content message ∧ error = .invalidConfig message := by
  constructor
  · intro h
    -- the reasons are looked for in the order of the definition
    unfold decode at h
    split at h
    case h_1 htext =>
      refine ⟨_, .notText fun text hcontent => ?_, (Except.error.inj h).symm⟩
      rw [Text.Utf8.decode?_eq_some_iff.2 hcontent] at htext
      cases htext
    case h_2 text htext =>
      obtain rfl := Text.Utf8.decode?_eq_some_iff.1 htext
      have htrims : Trims text (Text.trim text) := Text.trim_eq_iff.1 rfl
      split at h
      case h_1 fault hfault => exact ⟨_, .notHex rfl htrims hfault, (Except.error.inj h).symm⟩
      case h_2 bytes hbytes =>
        obtain ⟨heven, hdigits, hlower⟩ := Text.Hex.decode_eq_ok_iff.1 hbytes
        have hlength := Text.Hex.length_of_lower hlower
        split at h
        · cases h
        case isFalse hsize =>
          have hwrong : (Text.trim text).length ≠ 64 := by
            unfold keySize at hsize
            omega
          refine ⟨_, .size rfl htrims heven hdigits hwrong, ?_⟩
          rw [hlength, Nat.mul_div_cancel_left _ Nat.two_pos]
          exact (Except.error.inj h).symm
  · rintro ⟨message, hrefuses, rfl⟩
    exact hrefuses.decode_eq

/-- A content holds one key at most. -/
theorem Holds.unique (h : Holds content key) (h' : Holds content key') : key = key' := by
  have hread : decode "" content = .ok key := decode_eq_ok_iff.2 h
  exact Except.ok.inj (hread.symm.trans (decode_eq_ok_iff.2 h'))

/-- What is written for a key holds it. -/
theorem holds_content (key : Cipher.Key) : Holds (KeyFile.content key) key := by
  obtain ⟨-, hdigits, hlower⟩ := Text.Hex.decode_eq_ok_iff.1 (Text.Hex.decode_encode key.bytes)
  refine ⟨_, _, rfl, Text.trims_self_of_digits hdigits, ?_, hdigits, hlower⟩
  rw [Text.Hex.length_encode, key.length_eq]

end Keyring.KeyFile
