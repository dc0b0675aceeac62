import Mathlib.Data.List.Nodup
import Mathlib.Data.List.Perm.Subperm
import Mathlib.Data.List.TakeWhile
import Keyring.Proofs.Ciphertext.Prefix
import Keyring.Proofs.Json.Literal
import Keyring.Proofs.Text.Base64

/-!
# The grammar of records

A record is an object whose members are the key and the bytes, each at most once, or an array of at
most two texts, with white space wherever JSON allows it. Nothing else is read, and what is no
ciphertext is refused for the first reason that applies.

- `Json.Listed`: items with commas between them and white space around them;
- `Record`: the texts of records with their parts;
- `object?_eq_some_iff`, `array?_eq_some_iff`, `parts?_eq_some_iff`: the reader takes these texts;
- `reads_exactly_records`: the bytes of a ciphertext, and the reason against any others.
-/

namespace Keyring

namespace Json

/-- White space. -/
def Blank (w : List Char) : Prop :=
  ∀ c ∈ w, c = ' ' ∨ c = '\t' ∨ c = '\n' ∨ c = '\r'

/-- Items, each between white space, with commas between them. -/
inductive Items {α : Type} (Item : List Char → α → Prop) : List Char → List α → Prop where
  /-- The last item. -/
  | last {before item after : List Char} {x : α} (hbefore : Blank before) (h : Item item x)
    (hafter : Blank after) : Items Item (before ++ (item ++ after)) [x]
  /-- An item before others. -/
  | cons {before item after more : List Char} {x : α} {xs : List α} (hbefore : Blank before)
    (h : Item item x) (hafter : Blank after) (hmore : Items Item more xs) :
    Items Item (before ++ (item ++ (after ++ ',' :: more))) (x :: xs)

/-- The inside of an object or array: white space alone, or items. -/
def Listed {α : Type} (Item : List Char → α → Prop) (inside : List Char) (xs : List α) : Prop :=
  Blank inside ∧ xs = [] ∨ Items Item inside xs

/-- There is at least one item. -/
theorem Items.length_pos {α : Type} {Item : List Char → α → Prop} {w : List Char} {xs : List α}
    (h : Items Item w xs) : 0 < xs.length := by
  cases h <;> exact Nat.succ_pos _

variable {s w rest : List Char} {c : Char}

theorem isSpace_iff : isSpace c = true ↔ c = ' ' ∨ c = '\t' ∨ c = '\n' ∨ c = '\r' := by
  simp only [isSpace, Bool.or_eq_true, decide_eq_true_eq]
  tauto

theorem blank_iff : Blank w ↔ ∀ c ∈ w, isSpace c = true :=
  forall₂_congr fun _ _ => isSpace_iff.symm

/-- White space is skipped. -/
theorem Blank.skipSpace_append (h : Blank w) (s : List Char) :
    skipSpace (w ++ s) = skipSpace s := by
  unfold skipSpace
  rw [List.dropWhile_append_of_pos (blank_iff.1 h)]

/-- What is skipped is white space. -/
theorem exists_blank (s : List Char) : ∃ w, Blank w ∧ s = w ++ skipSpace s :=
  ⟨s.takeWhile isSpace, blank_iff.2 fun _ hc => List.mem_takeWhile_imp hc,
    List.takeWhile_append_dropWhile.symm⟩

/-- Nothing is left exactly of white space. -/
theorem skipSpace_eq_nil_iff : skipSpace s = [] ↔ Blank s := by
  rw [skipSpace, List.dropWhile_eq_nil_iff, blank_iff]

/-- White space is skipped up to the first other character. -/
theorem Blank.skipSpace_append_cons (h : Blank w) (hc : isSpace c = false) (s : List Char) :
    skipSpace (w ++ c :: s) = c :: s := by
  rw [h.skipSpace_append, skipSpace_cons hc]

namespace StringLiteral

variable {literal text afterText : List Char}

/-- A literal is no white space. -/
theorem Spells.skipSpace_append (h : Spells literal text) (s : List Char) :
    skipSpace (literal ++ s) = literal ++ s := by
  obtain ⟨after, rfl⟩ := h.exists_cons
  exact skipSpace_cons rfl _

/-- What is read as a literal is one, with the white space around it. -/
theorem exists_of_parse? (h : parse? (skipSpace s) = some (text, afterText)) :
    ∃ before literal after, Blank before ∧ Spells literal text ∧ Blank after ∧
      s = before ++ (literal ++ (after ++ skipSpace afterText)) := by
  obtain ⟨literal, hliteral, hs⟩ := parse?_eq_some_iff.1 h
  obtain ⟨before, hbefore, hsplit⟩ := exists_blank s
  obtain ⟨after, hafter, hsplitAfter⟩ := exists_blank afterText
  exact ⟨before, literal, after, hbefore, hliteral, hafter, by rw [hsplit, hs, ← hsplitAfter]⟩

end StringLiteral

end Json

namespace Ciphertext

open Json StringLiteral

/-- The name of a member. -/
def Part.name : Part → List Char
  | .key => "key".toList
  | .bytes => "bytes".toList

/-- A member of a record: the name of a part, a colon and a text. -/
def Member (w : List Char) (member : Part × List Char) : Prop :=
  ∃ name afterName beforeText text, Spells name member.1.name ∧ Blank afterName ∧
    Blank beforeText ∧ Spells text member.2 ∧ w = name ++ (afterName ++ ':' :: (beforeText ++ text))

/-- The parts that members give. -/
def Parts.ofMembers (members : List (Part × List Char)) : Parts where
  key := (members.lookup .key).getD []
  bytes := (members.lookup .bytes).getD []

/-- The parts that the texts of an array give. -/
def Parts.ofTexts (texts : List (List Char)) : Parts where
  key := texts[0]?.getD []
  bytes := texts[1]?.getD []

/-- The text of a record with its parts. -/
inductive Record : List Char → Parts → Prop where
  /-- An object that has no part twice. -/
  | object {before inside after : List Char} {members : List (Part × List Char)}
    (hbefore : Blank before) (h : Listed Member inside members)
    (hnodup : (members.map Prod.fst).Nodup) (hafter : Blank after) :
    Record (before ++ '\x7b' :: (inside ++ '\x7d' :: after)) (.ofMembers members)
  /-- An array of at most two texts. -/
  | array {before inside after : List Char} {texts : List (List Char)} (hbefore : Blank before)
    (h : Listed Spells inside texts) (hlength : texts.length ≤ 2) (hafter : Blank after) :
    Record (before ++ '[' :: (inside ++ ']' :: after)) (.ofTexts texts)

variable {s w rest text : List Char} {part : Part} {parts : Parts}

/-! ### Objects -/

theorem Part.ofName?_eq_some_iff {name : List Char} :
    ofName? name = some part ↔ name = part.name := by
  unfold ofName?
  constructor
  · intro h
    split_ifs at h with hkey hbytes
    · rw [← Option.some.inj h, hkey]
      rfl
    · rw [← Option.some.inj h, hbytes]
      rfl
  · rintro rfl
    cases part <;> rfl

/-- A member is read with the white space after it. -/
theorem Member.member?_append (h : Member w (part, text)) {after : List Char}
    (hafter : Blank after) {c : Char} (hc : isSpace c = false) (rest : List Char) :
    member? (w ++ (after ++ c :: rest)) = some (part, text, c :: rest) := by
  obtain ⟨name, afterName, beforeText, literal, hname, hafterName, hbeforeText, htext, rfl⟩ := h
  refine member?_eq_some_iff.2 ⟨part.name, afterName ++ ':' :: (beforeText ++ (literal ++
    (after ++ c :: rest))), beforeText ++ (literal ++ (after ++ c :: rest)), after ++ c :: rest,
    parse?_eq_some_iff.2 ⟨name, hname, by simp⟩, Part.ofName?_eq_some_iff.2 rfl,
    hafterName.skipSpace_append_cons rfl _, ?_, hafter.skipSpace_append_cons hc rest⟩
  rw [hbeforeText.skipSpace_append, htext.skipSpace_append]
  exact parse?_eq_some_iff.2 ⟨literal, htext, rfl⟩

/-- A member is no white space. -/
theorem Member.skipSpace_append (h : Member w (part, text)) (s : List Char) :
    skipSpace (w ++ s) = w ++ s := by
  obtain ⟨name, afterName, beforeText, literal, hname, -, -, -, rfl⟩ := h
  rw [List.append_assoc, hname.skipSpace_append]

/-- What is read as a member is one, with the white space around it. -/
theorem exists_of_member? (h : member? (skipSpace s) = some (part, text, rest)) :
    ∃ before w after, Blank before ∧ Member w (part, text) ∧ Blank after ∧
      s = before ++ (w ++ (after ++ rest)) := by
  obtain ⟨name, afterName, afterColon, afterText, hname, hpart, hcolon, htext, hrest⟩ :=
    member?_eq_some_iff.1 h
  obtain rfl := Part.ofName?_eq_some_iff.1 hpart
  obtain ⟨before, name, beforeColon, hbefore, hname, hbeforeColon, hs⟩ := exists_of_parse? hname
  obtain ⟨beforeText, literal, after, hbeforeText, htext, hafter, hrestColon⟩ :=
    exists_of_parse? htext
  refine ⟨before, _, after, hbefore,
    ⟨name, beforeColon, beforeText, literal, hname, hbeforeColon, hbeforeText, htext, rfl⟩,
    hafter, ?_⟩
  rw [hs, hcolon, hrestColon, hrest]
  simp

/-- No more than two members have different parts. -/
theorem length_le_two_of_nodup {parts : List Part} (h : parts.Nodup) : parts.length ≤ 2 := by
  have hsub : parts ⊆ [.key, .bytes] := by
    intro part _
    cases part <;> simp
  exact (List.subperm_of_subset h hsub).length_le

/-- What is read after an opening brace are members, none of a part twice, and the closing brace. -/
theorem exists_of_object? (h : object? (skipSpace s) = some (parts, rest)) :
    ∃ inside members, Listed Member inside members ∧ (members.map Prod.fst).Nodup ∧
      parts = .ofMembers members ∧ s = inside ++ '\x7d' :: rest := by
  unfold object? at h
  split at h
  case h_1 heq =>
    obtain ⟨rfl, rfl⟩ := Prod.mk.inj (Option.some.inj h)
    obtain ⟨before, hbefore, hsplit⟩ := exists_blank s
    exact ⟨before, [], .inl ⟨hbefore, rfl⟩, List.nodup_nil, rfl, by rw [hsplit, heq]⟩
  case h_2 =>
    simp only [Option.bind_eq_bind, Option.bind_eq_some_iff, Prod.exists] at h
    obtain ⟨part, text, afterText, hread, h⟩ := h
    obtain ⟨before, w, after, hbefore, hmember, hafter, rfl⟩ := exists_of_member? hread
    split at h
    -- one member
    case h_1 =>
      obtain ⟨rfl, rfl⟩ := Prod.mk.inj (Option.some.inj h)
      refine ⟨_, [(part, text)], .inr (.last hbefore hmember hafter), List.nodup_singleton _, ?_,
        by simp⟩
      cases part <;> rfl
    -- two members
    case h_2 =>
      simp only [Option.bind_eq_some_iff, Prod.exists] at h
      obtain ⟨part', text', afterText', hread', h⟩ := h
      obtain ⟨before', w', after', hbefore', hmember', hafter', rfl⟩ := exists_of_member? hread'
      split at h
      case h_1 =>
        split at h
        case isTrue => cases h
        case isFalse hne =>
          obtain ⟨rfl, rfl⟩ := Prod.mk.inj (Option.some.inj h)
          refine ⟨_, [(part, text), (part', text')],
            .inr (.cons hbefore hmember hafter (.last hbefore' hmember' hafter')), by simp [hne],
            ?_, by simp⟩
          cases part <;> cases part' <;> first | rfl | exact absurd rfl hne
      case h_2 => cases h
    case h_3 => cases h

/-- Members, none of a part twice, are read up to the closing brace. -/
theorem object?_of_listed {inside : List Char} {members : List (Part × List Char)}
    (hinside : Listed Member inside members) (hnodup : (members.map Prod.fst).Nodup)
    (rest : List Char) :
    object? (skipSpace (inside ++ '\x7d' :: rest)) = some (.ofMembers members, rest) := by
  rcases hinside with ⟨hblank, rfl⟩ | hitems
  case inl =>
    rw [hblank.skipSpace_append_cons rfl]
    rfl
  case inr =>
    have hbrace : isSpace '\x7d' = false := rfl
    have hcomma : isSpace ',' = false := rfl
    cases hitems with
    | @last before w after member hbefore hmember hafter =>
      obtain ⟨part, text⟩ := member
      have hread := hmember.member?_append hafter hbrace rest
      simp only [List.append_assoc]
      rw [hbefore.skipSpace_append, hmember.skipSpace_append,
        object?.eq_2 _ (ne_brace_of_member? hread), hread]
      cases part <;> rfl
    | @cons before w after more member members hbefore hmember hafter hmore =>
      obtain ⟨part, text⟩ := member
      simp only [List.append_assoc, List.cons_append]
      rw [hbefore.skipSpace_append, hmember.skipSpace_append]
      cases hmore with
      | @last before' w' after' member' hbefore' hmember' hafter' =>
        obtain ⟨part', text'⟩ := member'
        have hread := hmember.member?_append hafter hcomma (before' ++ (w' ++ (after' ++
          '\x7d' :: rest)))
        have hread' := hmember'.member?_append hafter' hbrace rest
        have hne : part ≠ part' := by simpa using hnodup
        simp only [List.append_assoc]
        rw [object?.eq_2 _ (ne_brace_of_member? hread), hread]
        simp only [Option.bind_eq_bind, Option.bind_some]
        rw [hbefore'.skipSpace_append, hmember'.skipSpace_append, hread']
        simp only [Option.bind_some, if_neg hne]
        cases part <;> cases part' <;> first | rfl | exact absurd rfl hne
      | cons _ _ _ hmost =>
        have hlength := length_le_two_of_nodup hnodup
        have hpos := hmost.length_pos
        simp only [List.map_cons, List.length_cons, List.length_map] at hlength
        omega

/-- **Objects.** Exactly members, none of a part twice, are read up to the closing brace. -/
theorem object?_eq_some_iff :
    object? (skipSpace s) = some (parts, rest) ↔
      ∃ inside members, Listed Member inside members ∧ (members.map Prod.fst).Nodup ∧
        parts = .ofMembers members ∧ s = inside ++ '\x7d' :: rest := by
  constructor
  · exact exists_of_object?
  · rintro ⟨inside, members, hinside, hnodup, rfl, rfl⟩
    exact object?_of_listed hinside hnodup rest

/-! ### Arrays -/

/-- What begins with a literal is no end of an array. -/
theorem ne_bracket_of_parse? {read : List Char × List Char} (h : parse? s = some read)
    (rest : List Char) : s ≠ ']' :: rest := by
  rintro rfl
  cases h

/-- What is read after an opening bracket are at most two texts and the closing bracket. -/
theorem exists_of_array? (h : array? (skipSpace s) = some (parts, rest)) :
    ∃ inside texts, Listed Spells inside texts ∧ texts.length ≤ 2 ∧ parts = .ofTexts texts ∧
      s = inside ++ ']' :: rest := by
  unfold array? at h
  split at h
  case h_1 heq =>
    obtain ⟨rfl, rfl⟩ := Prod.mk.inj (Option.some.inj h)
    obtain ⟨before, hbefore, hsplit⟩ := exists_blank s
    exact ⟨before, [], .inl ⟨hbefore, rfl⟩, by simp, rfl, by rw [hsplit, heq]⟩
  case h_2 =>
    simp only [Option.bind_eq_bind, Option.bind_eq_some_iff, Prod.exists] at h
    obtain ⟨key, afterKey, hread, h⟩ := h
    obtain ⟨before, literal, after, hbefore, hkey, hafter, rfl⟩ := exists_of_parse? hread
    split at h
    -- one text
    case h_1 heq =>
      obtain ⟨rfl, rfl⟩ := Prod.mk.inj (Option.some.inj h)
      exact ⟨_, [key], .inr (.last hbefore hkey hafter), by simp, rfl, by simp [heq]⟩
    -- two texts
    case h_2 heq =>
      simp only [Option.bind_eq_some_iff, Prod.exists] at h
      obtain ⟨bytes, afterBytes, hread', h⟩ := h
      obtain ⟨before', literal', after', hbefore', hbytes, hafter', rfl⟩ := exists_of_parse? hread'
      split at h
      case h_1 heq' =>
        obtain ⟨rfl, rfl⟩ := Prod.mk.inj (Option.some.inj h)
        exact ⟨_, [key, bytes],
          .inr (.cons hbefore hkey hafter (.last hbefore' hbytes hafter')), by simp, rfl,
          by simp [heq, heq']⟩
      case h_2 => cases h
    case h_3 => cases h

/-- At most two texts are read up to the closing bracket. -/
theorem array?_of_listed {inside : List Char} {texts : List (List Char)}
    (hinside : Listed Spells inside texts) (hlength : texts.length ≤ 2) (rest : List Char) :
    array? (skipSpace (inside ++ ']' :: rest)) = some (.ofTexts texts, rest) := by
  rcases hinside with ⟨hblank, rfl⟩ | hitems
  case inl =>
    rw [hblank.skipSpace_append_cons rfl]
    rfl
  case inr =>
    have hbracket : isSpace ']' = false := rfl
    have hcomma : isSpace ',' = false := rfl
    cases hitems with
    | @last before literal after key hbefore hkey hafter =>
      have hread := hkey.parse?_append
      simp only [List.append_assoc]
      rw [hbefore.skipSpace_append, hkey.skipSpace_append,
        array?.eq_2 _ (ne_bracket_of_parse? (hread _)), hread]
      simp only [Option.bind_eq_bind, Option.bind_some]
      rw [hafter.skipSpace_append_cons hbracket]
      rfl
    | @cons before literal after more key texts hbefore hkey hafter hmore =>
      have hread := hkey.parse?_append
      simp only [List.append_assoc, List.cons_append]
      rw [hbefore.skipSpace_append, hkey.skipSpace_append,
        array?.eq_2 _ (ne_bracket_of_parse? (hread _)), hread]
      simp only [Option.bind_eq_bind, Option.bind_some]
      rw [hafter.skipSpace_append_cons hcomma]
      cases hmore with
      | @last before' literal' after' bytes hbefore' hbytes hafter' =>
        simp only [List.append_assoc]
        rw [hbefore'.skipSpace_append, hbytes.skipSpace_append, hbytes.parse?_append]
        simp only [Option.bind_some]
        rw [hafter'.skipSpace_append_cons hbracket]
        rfl
      | cons _ _ _ hmost =>
        have hpos := hmost.length_pos
        simp only [List.length_cons] at hlength
        omega

/-- **Arrays.** Exactly at most two texts are read up to the closing bracket. -/
theorem array?_eq_some_iff :
    array? (skipSpace s) = some (parts, rest) ↔
      ∃ inside texts, Listed Spells inside texts ∧ texts.length ≤ 2 ∧ parts = .ofTexts texts ∧
        s = inside ++ ']' :: rest := by
  constructor
  · exact exists_of_array?
  · rintro ⟨inside, texts, hinside, hlength, rfl, rfl⟩
    exact array?_of_listed hinside hlength rest

/-! ### Records -/

/-- **Records.** The texts that are read are records, with their parts. -/
theorem parts?_eq_some_iff : parts? s = some parts ↔ Record s parts := by
  have hbrace : isSpace '\x7b' = false := rfl
  have hbracket : isSpace '[' = false := rfl
  unfold parts?
  constructor
  · intro h
    -- nothing but white space follows what is read
    have hend {read : Option (Parts × List Char)}
        (h : (read >>= fun r => if skipSpace r.2 = [] then some r.1 else none) = some parts) :
        ∃ after, Blank after ∧ read = some (parts, after) := by
      simp only [Option.bind_eq_bind, Option.bind_eq_some_iff, Prod.exists] at h
      obtain ⟨parts', after, hread, h⟩ := h
      split at h
      case isTrue hblank =>
        obtain rfl := Option.some.inj h
        exact ⟨after, skipSpace_eq_nil_iff.1 hblank, hread⟩
      case isFalse => cases h
    obtain ⟨before, hbefore, hsplit⟩ := exists_blank s
    split at h
    case h_1 heq =>
      obtain ⟨after, hafter, hread⟩ := hend h
      obtain ⟨inside, members, hinside, hnodup, rfl, rfl⟩ := object?_eq_some_iff.1 hread
      rw [hsplit, heq]
      exact .object hbefore hinside hnodup hafter
    case h_2 heq =>
      obtain ⟨after, hafter, hread⟩ := hend h
      obtain ⟨inside, texts, hinside, hlength, rfl, rfl⟩ := array?_eq_some_iff.1 hread
      rw [hsplit, heq]
      exact .array hbefore hinside hlength hafter
    case h_3 =>
      obtain ⟨after, -, hread⟩ := hend h
      cases hread
  · intro h
    cases h with
    | object hbefore hinside hnodup hafter =>
      rw [hbefore.skipSpace_append_cons hbrace]
      simp only [object?_eq_some_iff.2 ⟨_, _, hinside, hnodup, rfl, rfl⟩, Option.bind_eq_bind,
        Option.bind_some, skipSpace_eq_nil_iff.2 hafter, if_true]
    | array hbefore hinside hlength hafter =>
      rw [hbefore.skipSpace_append_cons hbracket]
      simp only [array?_eq_some_iff.2 ⟨_, _, hinside, hlength, rfl, rfl⟩, Option.bind_eq_bind,
        Option.bind_some, skipSpace_eq_nil_iff.2 hafter, if_true]

/-- The bytes of a record with its parts. -/
def IsRecord (record : List UInt8) (parts : Parts) : Prop :=
  ∃ s, record = Text.Utf8.encode s ∧ Record s parts

/-- The bytes of a record of a ciphertext: not too many, with a master key, and with the bytes in
their written form. -/
def Accepts (record : List UInt8) (c : Ciphertext) : Prop :=
  record.length ≤ maxRecordSize ∧
    ∃ parts, IsRecord record parts ∧ parts.key ≠ [] ∧ parts.key = c.key.toList ∧
      parts.bytes = Text.Base64.encode c.bytes

namespace Fault

/-- What each fault says against some bytes. -/
def Applies (record : List UInt8) : Fault → Prop
  | .tooLarge => maxRecordSize < record.length
  | .notARecord => ¬∃ parts, IsRecord record parts
  | .missingKey => ∃ parts, IsRecord record parts ∧ parts.key = []
  | .notBase64 => ∃ parts, IsRecord record parts ∧ ¬∃ bytes, parts.bytes = Text.Base64.encode bytes

/-- The faults in the order in which they are looked for. -/
def all : List Fault := [.tooLarge, .notARecord, .missingKey, .notBase64]

/-- A fault applies, and none before it does. -/
def IsFirst (record : List UInt8) (fault : Fault) : Prop :=
  fault.Applies record ∧ ∀ other ∈ all.takeWhile (· ≠ fault), ¬other.Applies record

end Fault

variable {record : List UInt8} {c : Ciphertext} {fault : Fault}

/-- What is read of some bytes are the parts of their record. -/
theorem bind_parts?_eq_some_iff :
    (Text.Utf8.decode? record).bind parts? = some parts ↔ IsRecord record parts := by
  simp only [Option.bind_eq_some_iff, Text.Utf8.decode?_eq_some_iff, parts?_eq_some_iff, IsRecord]

theorem IsRecord.unique {parts' : Parts} (h : IsRecord record parts)
    (h' : IsRecord record parts') : parts = parts' := by
  rw [← bind_parts?_eq_some_iff] at h h'
  exact Option.some.inj (h.symm.trans h')

/-- Reading ends with a ciphertext whose record it is, or with the first fault that applies. -/
theorem decode_cases (record : List UInt8) :
    (∃ c, decode record = .ok c ∧ Accepts record c) ∨
      ∃ fault, decode record = .error fault ∧ fault.IsFirst record := by
  unfold decode
  by_cases hsize : maxRecordSize < record.length
  case pos =>
    rw [if_pos hsize]
    exact .inr ⟨.tooLarge, rfl, hsize, by simp [Fault.all]⟩
  case neg =>
    have hlarge : ¬Fault.tooLarge.Applies record := hsize
    rw [if_neg hsize]
    cases hparts : (Text.Utf8.decode? record).bind parts? with
    | none =>
      have hnone : Fault.notARecord.Applies record := by
        rintro ⟨parts, hrecord⟩
        rw [bind_parts?_eq_some_iff.2 hrecord] at hparts
        cases hparts
      exact .inr ⟨.notARecord, rfl, hnone, by simp [Fault.all, hlarge]⟩
    | some parts =>
      have hrecord := bind_parts?_eq_some_iff.1 hparts
      have hsome : ¬Fault.notARecord.Applies record := fun hnone => hnone ⟨parts, hrecord⟩
      dsimp only
      by_cases hkey : parts.key = []
      case pos =>
        rw [if_pos hkey]
        exact .inr ⟨.missingKey, rfl, ⟨parts, hrecord, hkey⟩, by simp [Fault.all, hlarge, hsome]⟩
      case neg =>
        have hnamed : ¬Fault.missingKey.Applies record := by
          rintro ⟨parts', hrecord', hempty⟩
          rw [hrecord.unique hrecord'] at hkey
          exact hkey hempty
        rw [if_neg hkey]
        cases hbytes : Text.Base64.decode? parts.bytes with
        | none =>
          refine .inr ⟨.notBase64, rfl, ⟨parts, hrecord, ?_⟩,
            by simp [Fault.all, hlarge, hsome, hnamed]⟩
          rintro ⟨bytes, hwritten⟩
          rw [Text.Base64.decode?_eq_some_iff.2 hwritten] at hbytes
          cases hbytes
        | some bytes =>
          exact .inl ⟨_, rfl, Nat.not_lt.1 hsize, parts, hrecord, hkey, by simp,
            Text.Base64.decode?_eq_some_iff.1 hbytes⟩

theorem Accepts.unique {c' : Ciphertext} (h : Accepts record c) (h' : Accepts record c') :
    c = c' := by
  obtain ⟨-, parts, hrecord, -, hkey, hbytes⟩ := h
  obtain ⟨-, parts', hrecord', -, hkey', hbytes'⟩ := h'
  obtain rfl := hrecord.unique hrecord'
  have hkeys : c.key = c'.key := String.toList_inj.1 (hkey.symm.trans hkey')
  have hread := Text.Base64.decode?_eq_some_iff.2 hbytes
  rw [Text.Base64.decode?_eq_some_iff.2 hbytes'] at hread
  cases c
  cases c'
  rw [Ciphertext.mk.injEq]
  exact ⟨hkeys, (Option.some.inj hread).symm⟩

/-- No fault applies to the record of a ciphertext. -/
theorem Accepts.not_applies (h : Accepts record c) (fault : Fault) : ¬fault.Applies record := by
  obtain ⟨hsize, parts, hrecord, hkey, -, hbytes⟩ := h
  cases fault with
  | tooLarge => exact Nat.not_lt.2 hsize
  | notARecord => exact fun hnone => hnone ⟨parts, hrecord⟩
  | missingKey =>
    rintro ⟨parts', hrecord', hempty⟩
    rw [hrecord.unique hrecord'] at hkey
    exact hkey hempty
  | notBase64 =>
    rintro ⟨parts', hrecord', hnone⟩
    rw [← hrecord.unique hrecord'] at hnone
    exact hnone ⟨c.bytes, hbytes⟩

theorem decode_eq_ok_iff : decode record = .ok c ↔ Accepts record c := by
  rcases decode_cases record with ⟨c', hread, haccepts⟩ | ⟨fault, hread, hfirst⟩
  · constructor
    · intro h
      obtain rfl := Except.ok.inj (hread.symm.trans h)
      exact haccepts
    · intro h
      rw [hread, h.unique haccepts]
  · constructor
    · intro h
      cases hread.symm.trans h
    · intro h
      exact absurd hfirst.1 (h.not_applies fault)

theorem ofRecord_eq_ok_iff : ofRecord record = .ok c ↔ Accepts record c := by
  rw [← decode_eq_ok_iff, ofRecord]
  cases decode record <;> simp

/-- **The grammar of records.** Some bytes are read as a ciphertext exactly if they are a record of
it. Of any others nothing is said but that they are malformed, and the reason that is kept is the
first that applies. -/
theorem reads_exactly_records (record : List UInt8) :
    (∀ c, ofRecord record = .ok c ↔ Accepts record c) ∧
      ((∀ c, ¬Accepts record c) ↔
        ofRecord record = .error .malformedCiphertext ∧
          ∃ fault, decode record = .error fault ∧ fault.IsFirst record) := by
  refine ⟨fun c => ofRecord_eq_ok_iff, ?_, ?_⟩
  · intro hnone
    rcases decode_cases record with ⟨c, -, haccepts⟩ | ⟨fault, hread, hfirst⟩
    · exact absurd haccepts (hnone c)
    · exact ⟨by rw [ofRecord, hread], fault, hread, hfirst⟩
  · rintro ⟨hmalformed, -⟩ c haccepts
    cases hmalformed.symm.trans (ofRecord_eq_ok_iff.2 haccepts)

end Ciphertext

end Keyring
