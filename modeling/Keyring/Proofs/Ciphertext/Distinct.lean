import Keyring.Proofs.Ciphertext.Grammar
import Keyring.Proofs.Secret.Parsing

/-!
# Telling secrets from ciphertexts

The first character of a text that is no blank is a digit if the text spells a secret, and a brace
or a bracket if it is the record of a ciphertext. So no bytes are read as both, and neither is a
part of what is written for one of them read as the other.

- `Text.first?`, `Text.Trims.first?_eq`: the first character that is no blank;
- `Ciphertext.Record.first?_eq`, `Secret.Spells.exists_first?`: what it is for either format;
- `Ciphertext.ofRecord_ne_ok_of_digits`, `Ciphertext.ofRecord_ne_ok_of_secret`: digits between
  blanks are no ciphertext;
- `Secret.ofRecord_ne_ok_of_prefix`: no part of the record of a ciphertext spells a secret.
-/

namespace Keyring

namespace Text

/-- The first character of a text that is no blank. -/
def first? (text : List Char) : Option Char := (trimStart text).head?

variable {text core : List Char}

theorem first?_append_cons {before : List Char} {c : Char}
    (hbefore : ∀ b ∈ before, isBlank b = true) (hc : isBlank c = false) (s : List Char) :
    first? (before ++ c :: s) = some c := by
  rw [first?, trimStart_append_cons hbefore hc]
  rfl

/-- A text begins as its core does, but for blanks. -/
theorem Trims.first?_eq (h : Trims text core) : first? text = core.head? := by
  obtain ⟨⟨before, after, hbefore, hafter, rfl⟩, hhead, -⟩ := h
  cases core with
  | nil =>
    have hblank : ∀ c ∈ before ++ [] ++ after, isBlank c = true := by
      intro c hc
      rw [List.append_nil] at hc
      exact (List.mem_append.1 hc).elim (hbefore c) (hafter c)
    rw [first?, trimStart, List.dropWhile_eq_nil_iff.2 hblank]
  | cons c core =>
    rw [List.append_assoc, List.cons_append, first?_append_cons hbefore (hhead c rfl)]
    rfl

end Text

open Text

namespace Ciphertext

/-- The record of a ciphertext begins with a brace or a bracket, but for blanks. -/
theorem Record.first?_eq {text : List Char} {parts : Parts} (h : Record text parts) :
    first? text = some '\x7b' ∨ first? text = some '[' := by
  have hblank {blanks : List Char} (hblanks : Json.Blank blanks) (b : Char) (hb : b ∈ blanks) :
      isBlank b = true := by
    rcases hblanks b hb with rfl | rfl | rfl | rfl <;> decide
  cases h with
  | object hbefore => exact .inl (first?_append_cons (hblank hbefore) (by decide) _)
  | array hbefore => exact .inr (first?_append_cons (hblank hbefore) (by decide) _)

/-- Digits between blanks are no ciphertext, however many there are. -/
theorem ofRecord_ne_ok_of_digits {text core : List Char} (htrims : Trims text core)
    (hdigits : ∀ d ∈ core, HexDigit d.toNat) (c : Ciphertext) :
    ofRecord (Utf8.encode text) ≠ .ok c := by
  intro hread
  obtain ⟨-, parts, ⟨text', hsame, hrecord⟩, -⟩ := ofRecord_eq_ok_iff.1 hread
  obtain rfl : text = text' :=
    Option.some.inj ((Utf8.decode?_encode text).symm.trans (Utf8.decode?_eq_some_iff.2 hsame))
  -- neither a brace nor a bracket is a digit
  have hfirst := hrecord.first?_eq
  rw [htrims.first?_eq] at hfirst
  rcases hfirst with hbrace | hbracket
  · exact absurd (hdigits _ (List.mem_of_mem_head? hbrace)) (by decide)
  · exact absurd (hdigits _ (List.mem_of_mem_head? hbracket)) (by decide)

/-- No part of the digits of some bytes is a ciphertext. -/
theorem ofRecord_ne_ok_of_prefix_encode {bytes record : List UInt8}
    (h : record <+: Utf8.encode (Hex.encode bytes)) (c : Ciphertext) : ofRecord record ≠ .ok c := by
  intro hread
  obtain ⟨-, parts, ⟨text, rfl, -⟩, -⟩ := ofRecord_eq_ok_iff.1 hread
  have hpart : text <+: Hex.encode bytes := Utf8.prefix_of_encode_prefix h
  have hall := (Hex.decode_eq_ok_iff.1 (Hex.decode_encode bytes)).2.1
  have hdigits : ∀ d ∈ text, HexDigit d.toNat := fun d hd => hall d (hpart.subset hd)
  exact ofRecord_ne_ok_of_digits (trims_self_of_digits hdigits) hdigits c hread

/-- What is read as a secret is no ciphertext. -/
theorem ofRecord_ne_ok_of_secret {record : List UInt8} {s : Secret}
    (h : Secret.ofRecord record = .ok s) (c : Ciphertext) : ofRecord record ≠ .ok c := by
  obtain ⟨text, rfl, core, htrims, -, hdigits, -⟩ := Secret.ofRecord_eq_ok_iff.1 h
  exact ofRecord_ne_ok_of_digits htrims hdigits c

end Ciphertext

namespace Secret

/-- A text that spells a secret begins with a digit, but for blanks. -/
theorem Spells.exists_first? {text : List Char} {s : Secret} (h : Spells text s) :
    ∃ c, first? text = some c ∧ HexDigit c.toNat := by
  obtain ⟨core, htrims, -, hdigits, hlower⟩ := h
  rw [htrims.first?_eq]
  cases core with
  | cons c core => exact ⟨c, rfl, hdigits c List.mem_cons_self⟩
  | nil =>
    -- a secret has at least one byte
    rw [show s.toHex.toList = Hex.encode s.bytes from String.toList_ofList] at hlower
    have hlength := Hex.length_of_lower hlower
    have hpos := List.length_pos_iff.2 s.ne_nil
    rw [List.length_nil] at hlength
    omega

/-- No part of the record of a ciphertext spells a secret. -/
theorem ofRecord_ne_ok_of_prefix {c : Ciphertext} {record : List UInt8} (h : record <+: c.toRecord)
    (s : Secret) : ofRecord record ≠ .ok s := by
  intro hread
  obtain ⟨text, rfl, hspells⟩ := ofRecord_eq_ok_iff.1 hread
  obtain ⟨d, hfirst, hdigit⟩ := hspells.exists_first?
  have hpart : text <+: '\x7b' :: c.inside := c.render_eq ▸ Utf8.prefix_of_encode_prefix h
  rcases List.prefix_cons_iff.1 hpart with rfl | ⟨rest, rfl, -⟩
  · cases hfirst
  · -- the text begins with a brace, which is no digit
    rw [show first? ('\x7b' :: rest) = some '\x7b' from rfl] at hfirst
    obtain rfl := Option.some.inj hfirst
    exact absurd hdigit (by decide)

end Secret

end Keyring
