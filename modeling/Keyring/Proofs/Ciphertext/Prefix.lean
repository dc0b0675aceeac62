import Mathlib.Data.List.Infix
import Keyring.Proofs.Json.Literal

/-!
# Records that break off

A reader that stops at the closing brace of a record cannot be content with less than the whole
record: what it reads of a part it reads of the whole as well, with the rest left over.

- `Utf8.prefix_of_encode_prefix`: the text of a part of the bytes is a part of the text;
- `StringLiteral.parse?_append`, `member?_append`, `object?_append`: more text changes nothing of
  what is read, and is left over;
- `ofRecord_eq_error_of_prefix`: a record that breaks off is no record.
-/

namespace Keyring

namespace Text.Utf8

/-- No character begins with another one. -/
theorem eq_of_utf8EncodeChar_append {c d : Char} {a b : List UInt8}
    (h : String.utf8EncodeChar c ++ a = String.utf8EncodeChar d ++ b) : c = d := by
  have hdecode := congrArg (fun bytes => bytes.toByteArray.utf8DecodeChar? 0) h
  simp only [List.toByteArray_append, ByteArray.utf8DecodeChar?_utf8EncodeChar_append] at hdecode
  exact Option.some.inj hdecode

/-- The text of a part of the bytes is a part of the text. -/
theorem prefix_of_encode_prefix {s t : List Char} (h : encode s <+: encode t) : s <+: t := by
  induction s generalizing t with
  | nil => exact List.nil_prefix
  | cons c s ih =>
    cases t with
    | nil =>
      have hnil : String.utf8EncodeChar c ++ encode s = [] := List.prefix_nil.1 h
      exact absurd (List.append_eq_nil_iff.1 hnil).1 String.utf8EncodeChar_ne_nil
    | cons d t =>
      obtain ⟨rest, hrest⟩ := h
      have hsplit : String.utf8EncodeChar c ++ (encode s ++ rest) =
          String.utf8EncodeChar d ++ encode t := by
        rw [← List.append_assoc]
        exact hrest
      obtain rfl := eq_of_utf8EncodeChar_append hsplit
      apply (List.prefix_append_right_inj [c]).2
      exact ih ⟨rest, List.append_cancel_left hsplit⟩

end Text.Utf8

namespace Json

/-- White space ends where it did, unless the text ended there. -/
theorem skipSpace_append {s rest : List Char} {c : Char} (h : skipSpace s = c :: rest)
    (more : List Char) : skipSpace (s ++ more) = c :: rest ++ more := by
  unfold skipSpace at h ⊢
  induction s with
  | nil => cases h
  | cons d s ih =>
    rw [List.cons_append]
    rw [List.dropWhile_cons] at h ⊢
    split at h
    case isTrue hspace => rw [if_pos hspace, ih h]
    case isFalse hspace => rw [if_neg hspace, ← h, List.cons_append]

namespace StringLiteral

/-- A literal ends where it did, whatever follows it. -/
theorem parse?_append {s text rest : List Char} (h : parse? s = some (text, rest))
    (more : List Char) : parse? (s ++ more) = some (text, rest ++ more) := by
  obtain ⟨literal, hliteral, rfl⟩ := parse?_eq_some_iff.1 h
  exact parse?_eq_some_iff.2 ⟨literal, hliteral, List.append_assoc _ _ _⟩

/-- A literal after white space ends where it did, whatever follows it. -/
theorem parse?_skipSpace_append {s text rest : List Char}
    (h : parse? (skipSpace s) = some (text, rest)) (more : List Char) :
    parse? (skipSpace (s ++ more)) = some (text, rest ++ more) := by
  cases hs : skipSpace s with
  | nil =>
    rw [hs] at h
    cases h
  | cons c afterSpace =>
    rw [skipSpace_append hs, ← hs]
    exact parse?_append h more

end StringLiteral

end Json

namespace Ciphertext

open Json

/-- A member is a known name, a colon and a string, with white space between them. -/
theorem member?_eq_some_iff {s text rest : List Char} {part : Part} :
    member? s = some (part, text, rest) ↔
      ∃ name afterName afterColon afterText,
        StringLiteral.parse? s = some (name, afterName) ∧ Part.ofName? name = some part ∧
          skipSpace afterName = ':' :: afterColon ∧
            StringLiteral.parse? (skipSpace afterColon) = some (text, afterText) ∧
              skipSpace afterText = rest := by
  unfold member?
  simp only [Option.bind_eq_bind, Option.bind_eq_some_iff, Prod.exists]
  constructor
  · rintro ⟨name, afterName, hname, part', hpart, h⟩
    split at h
    case h_1 afterColon hcolon =>
      simp only [Option.bind_eq_some_iff, Prod.exists] at h
      obtain ⟨text', afterText, htext, h⟩ := h
      cases h
      exact ⟨name, afterName, afterColon, afterText, hname, hpart, hcolon, htext, rfl⟩
    case h_2 => cases h
  · rintro ⟨name, afterName, afterColon, afterText, hname, hpart, hcolon, htext, rfl⟩
    refine ⟨name, afterName, hname, part, hpart, ?_⟩
    rw [hcolon]
    simp only [htext, Option.bind_some]
    rfl

/-- A member is read as before, whatever follows it, if something follows it. -/
theorem member?_append {s text rest : List Char} {part : Part} {c : Char}
    (h : member? s = some (part, text, c :: rest)) (more : List Char) :
    member? (s ++ more) = some (part, text, c :: (rest ++ more)) := by
  obtain ⟨name, afterName, afterColon, afterText, hname, hpart, hcolon, htext, hrest⟩ :=
    member?_eq_some_iff.1 h
  exact member?_eq_some_iff.2 ⟨name, afterName ++ more, afterColon ++ more, afterText ++ more,
    StringLiteral.parse?_append hname more, hpart, skipSpace_append hcolon more,
    StringLiteral.parse?_skipSpace_append htext more, skipSpace_append hrest more⟩

/-- A member after white space is read as before, if something follows it. -/
theorem member?_skipSpace_append {s text rest : List Char} {part : Part} {c : Char}
    (h : member? (skipSpace s) = some (part, text, c :: rest)) (more : List Char) :
    member? (skipSpace (s ++ more)) = some (part, text, c :: (rest ++ more)) := by
  cases hs : skipSpace s with
  | nil =>
    rw [hs] at h
    cases h
  | cons c afterSpace =>
    rw [skipSpace_append hs, ← hs]
    exact member?_append h more

/-- What begins with a member is no end of an object. -/
theorem ne_brace_of_member? {s : List Char} {member : Part × List Char × List Char}
    (h : member? s = some member) (rest : List Char) : s ≠ '\x7d' :: rest := by
  rintro rfl
  cases h

/-- An object ends at its brace, whatever follows it. -/
theorem object?_append {s rest : List Char} {parts : Parts} (h : object? s = some (parts, rest))
    (more : List Char) : object? (s ++ more) = some (parts, rest ++ more) := by
  unfold object? at h
  split at h
  case h_1 =>
    cases h
    rfl
  case h_2 =>
    simp only [Option.bind_eq_bind, Option.bind_eq_some_iff, Prod.exists] at h
    obtain ⟨part, text, afterText, hmember, h⟩ := h
    split at h
    -- one member
    case h_1 afterBrace =>
      cases h
      have hmember' := member?_append hmember more
      rw [object?.eq_2 _ (ne_brace_of_member? hmember'), hmember']
      rfl
    -- two members
    case h_2 afterComma =>
      simp only [Option.bind_eq_some_iff, Prod.exists] at h
      obtain ⟨part', text', afterText', hmember₂, h⟩ := h
      split at h
      case h_1 afterBrace =>
        split at h
        case isTrue => cases h
        case isFalse hne =>
          cases h
          have hmember' := member?_append hmember more
          have hmember₂' := member?_skipSpace_append hmember₂ more
          rw [object?.eq_2 _ (ne_brace_of_member? hmember'), hmember']
          simp only [Option.bind_eq_bind, Option.bind_some, hmember₂', if_neg hne]
          rfl
      case h_2 => cases h
    case h_3 => cases h

/-- A text that breaks off before the closing brace is no record. -/
theorem parts?_eq_none_of_prefix {c : Ciphertext} {s : List Char} (h : s <+: c.render)
    (hne : s ≠ c.render) : parts? s = none := by
  obtain ⟨more, hmore⟩ := h
  rw [render_eq] at hmore hne
  cases s with
  | nil => rfl
  | cons brace s =>
    have hinside : s ++ more = c.inside := (List.cons.inj hmore).2
    obtain rfl := (List.cons.inj hmore).1
    -- the inside begins with a quote, so that there is no white space to skip
    have hskip : skipSpace s = s := by
      cases s with
      | nil => rfl
      | cons quote s =>
        obtain ⟨rfl, -⟩ := List.cons.inj hinside
        exact skipSpace_cons rfl s
    rw [parts?, skipSpace_cons rfl]
    simp only [Option.bind_eq_bind, hskip]
    cases hobject : object? s with
    | none => rfl
    | some read =>
      -- the whole inside would be read up to the same brace, with the rest left over
      obtain ⟨parts, rest⟩ := read
      have hwhole := object?_append hobject more
      have hall : object? (s ++ more) = _ := hinside ▸ c.object?_inside
      rw [hall] at hwhole
      obtain ⟨-, hrest⟩ := Prod.mk.inj (Option.some.inj hwhole)
      obtain ⟨-, rfl⟩ := List.append_eq_nil_iff.1 hrest.symm
      rw [List.append_nil] at hinside
      exact absurd (by rw [hinside]) hne

/-- A record that breaks off is too large, or no record. -/
theorem decode_of_prefix {c : Ciphertext} {bytes : List UInt8} (h : bytes <+: c.toRecord)
    (hne : bytes ≠ c.toRecord) :
    decode bytes = .error (if maxRecordSize < bytes.length then .tooLarge else .notARecord) := by
  have hparts : (Text.Utf8.decode? bytes).bind parts? = none := by
    cases htext : Text.Utf8.decode? bytes with
    | none => rfl
    | some text =>
      obtain rfl := Text.Utf8.decode?_eq_some_iff.1 htext
      have hprefix := Text.Utf8.prefix_of_encode_prefix h
      refine parts?_eq_none_of_prefix hprefix ?_
      rintro rfl
      exact hne rfl
  unfold decode
  rw [hparts]
  split_ifs <;> rfl

/-- A record that breaks off is no record. -/
theorem ofRecord_eq_error_of_prefix {c : Ciphertext} {bytes : List UInt8}
    (h : bytes <+: c.toRecord) (hne : bytes ≠ c.toRecord) :
    ofRecord bytes = .error .malformedCiphertext := by
  rw [ofRecord, decode_of_prefix h hne]

end Ciphertext

end Keyring
