import Mathlib.Tactic.Common
import Keyring.Proofs.Ciphertext.Record

/-!
# The grammar of JSON string literals

A literal stands between quotes. Inside, each character of its text is spelled in one of four ways:
as itself, as a letter after a backslash, as the number of a character, or as two numbers that make
a surrogate pair. The reader takes exactly these literals from the front of a text.

- `Spelling`, `Spells`: the grammar;
- `scan_of_spelling`, `exists_of_scan`: the reader goes over one spelling at a time, and over
  nothing else;
- `parse?_eq_some_iff`: what is read is a literal with its text, and what follows it.
-/

namespace Keyring.Json

namespace StringLiteral

/-- The letters that may follow a backslash, with the characters that they stand for. -/
def letters : List (Char × Char) :=
  [('"', '"'), ('\\', '\\'), ('/', '/'), ('b', '\x08'), ('f', '\x0c'), ('n', '\n'), ('r', '\r'),
    ('t', '\t')]

/-- A hexadecimal digit of either case stands for a number. -/
def IsDigit (c : Char) (n : Nat) : Prop :=
  n < 16 ∧ (c = Text.Hex.digit n ∨ c = (Text.Hex.digit n).toUpper)

instance (c : Char) (n : Nat) : Decidable (IsDigit c n) :=
  inferInstanceAs (Decidable (_ ∧ _))

/-- Four hexadecimal digits stand for a number. -/
structure IsUnit (a b c d : Char) (n : Nat) : Prop where
  exists_digits : ∃ x y z w, IsDigit a x ∧ IsDigit b y ∧ IsDigit c z ∧ IsDigit d w ∧
    n = ((x * 16 + y) * 16 + z) * 16 + w

/-- One character of a text as it may stand inside a literal. -/
inductive Spelling : List Char → Char → Prop where
  /-- A character that is no control character, quote or backslash stands for itself. -/
  | plain {c : Char} (hcontrol : 32 ≤ c.toNat) (hquote : c ≠ '"') (hbackslash : c ≠ '\\') :
    Spelling [c] c
  /-- A letter after a backslash. -/
  | letter {l c : Char} (h : (l, c) ∈ letters) : Spelling ['\\', l] c
  /-- The number of a character, which is no half of a surrogate pair. -/
  | number {a b c d : Char} {n : Nat} (h : IsUnit a b c d n) (hn : n < 0xd800 ∨ 0xdfff < n) :
    Spelling ['\\', 'u', a, b, c, d] (Char.ofNat n)
  /-- The two halves of a surrogate pair. -/
  | pair {a b c d e f g h : Char} {n m : Nat} (hleading : IsUnit a b c d n)
    (htrailing : IsUnit e f g h m) (hn : 0xd800 ≤ n ∧ n ≤ 0xdbff) (hm : 0xdc00 ≤ m ∧ m ≤ 0xdfff) :
    Spelling ['\\', 'u', a, b, c, d, '\\', 'u', e, f, g, h]
      (Char.ofNat (0x10000 + (n - 0xd800) * 0x400 + (m - 0xdc00)))

/-- The inside of a literal with its text. -/
inductive Inside : List Char → List Char → Prop where
  | nil : Inside [] []
  | cons {w inside text : List Char} {c : Char} (h : Spelling w c) (hrest : Inside inside text) :
    Inside (w ++ inside) (c :: text)

/-- A literal with its text. -/
def Spells (literal text : List Char) : Prop :=
  ∃ inside, literal = '"' :: (inside ++ ['"']) ∧ Inside inside text

variable {a b c d : Char} {n : Nat} {s acc text rest literal : List Char}

/-! ### Numbers -/

theorem value?_eq_some_iff : value? c = some n ↔ IsDigit c n := by
  have hdigits : ∀ n < 16, value? (Text.Hex.digit n) = some n ∧
      value? (Text.Hex.digit n).toUpper = some n := by decide
  constructor
  · intro h
    unfold value? at h
    -- a digit of one of the three ranges is the one of that number
    split_ifs at h with hdigit hlower hupper
    · obtain rfl := Option.some.inj h
      exact Text.of_range (P := fun c => IsDigit c (c.toNat - 48)) hdigit (by decide)
    · obtain rfl := Option.some.inj h
      exact Text.of_range (P := fun c => IsDigit c (c.toNat - 87)) hlower (by decide)
    · obtain rfl := Option.some.inj h
      exact Text.of_range (P := fun c => IsDigit c (c.toNat - 55)) hupper (by decide)
  · rintro ⟨hn, rfl | rfl⟩
    · exact (hdigits n hn).1
    · exact (hdigits n hn).2

theorem unit?_eq_some_iff : unit? a b c d = some n ↔ IsUnit a b c d n := by
  unfold unit?
  simp only [Option.bind_eq_bind, Option.bind_eq_some_iff, value?_eq_some_iff]
  constructor
  · rintro ⟨x, hx, y, hy, z, hz, w, hw, hn⟩
    exact ⟨x, y, z, w, hx, hy, hz, hw, (Option.some.inj hn).symm⟩
  · rintro ⟨x, y, z, w, hx, hy, hz, hw, rfl⟩
    exact ⟨x, hx, y, hy, z, hz, w, hw, rfl⟩

theorem letter?_eq_some_iff {l : Char} : letter? l = some c ↔ (l, c) ∈ letters := by
  unfold letter? letters
  constructor
  · intro h
    split_ifs at h with hself
    · obtain rfl := Option.some.inj h
      rcases hself with rfl | rfl | rfl <;> simp
    all_goals
      obtain rfl := Option.some.inj h
      subst l
      simp
  · intro h
    simp only [List.mem_cons, Prod.mk.injEq, List.not_mem_nil, or_false] at h
    rcases h with ⟨rfl, rfl⟩ | ⟨rfl, rfl⟩ | ⟨rfl, rfl⟩ | ⟨rfl, rfl⟩ | ⟨rfl, rfl⟩ | ⟨rfl, rfl⟩ |
      ⟨rfl, rfl⟩ | ⟨rfl, rfl⟩ <;> rfl

/-! ### The reader -/

/-- The reader goes over the spelling of a character. -/
theorem scan_of_spelling {w : List Char} (h : Spelling w c) (acc rest : List Char) :
    scan acc (w ++ rest) = scan (c :: acc) rest := by
  cases h with
  | plain hcontrol hquote hbackslash =>
    have hplain : ¬(c.toNat < 32 ∨ c = '\\') := not_or.2 ⟨Nat.not_lt.2 hcontrol, hbackslash⟩
    rw [List.cons_append, List.nil_append, scan.eq_def]
    split
    case h_5 heq => cases heq; exact if_neg hplain
    all_goals simp_all
  | @letter l _ h =>
    have hletter := letter?_eq_some_iff.2 h
    have hne : l ≠ 'u' := by
      rintro rfl
      cases hletter
    rw [List.cons_append, List.cons_append, List.nil_append, scan.eq_def]
    split
    case h_4 heq =>
      obtain ⟨rfl, rfl⟩ := List.cons.inj (List.cons.inj heq).2
      rw [hletter]
    case h_5 hother heq =>
      obtain ⟨rfl, rfl⟩ := List.cons.inj heq
      exact absurd rfl (hother _ _ rfl)
    all_goals simp_all
  | number h hn =>
    have hunit := unit?_eq_some_iff.2 h
    simp only [List.cons_append, List.nil_append, scan, hunit]
    rw [if_neg, if_neg]
    · simp only [isLeading, Bool.and_eq_true, decide_eq_true_eq]
      omega
    · simp only [isTrailing, Bool.and_eq_true, decide_eq_true_eq]
      omega
  | @pair _ _ _ _ _ _ _ _ n m hleading htrailing hn hm =>
    have hunit := unit?_eq_some_iff.2 hleading
    have hunit' := unit?_eq_some_iff.2 htrailing
    have hnotTrailing : isTrailing n = false := by simp [isTrailing]; omega
    have hisLeading : isLeading n = true := by simp [isLeading]; omega
    have hisTrailing : isTrailing m = true := by simp [isTrailing]; omega
    simp [scan, hunit, hunit', hnotTrailing, hisLeading, hisTrailing, joinPair]

/-- The reader goes over the inside of a literal up to the closing quote. -/
theorem scan_of_inside {inside : List Char} (h : Inside inside text) (acc rest : List Char) :
    scan acc (inside ++ '"' :: rest) = some (acc.reverse ++ text, rest) := by
  induction h generalizing acc with
  | nil => simp [scan]
  | cons h _ ih =>
    rw [List.append_assoc, scan_of_spelling h, ih]
    simp

/-- What the reader goes over is the inside of a literal, and the closing quote after it. -/
theorem exists_of_scan (h : scan acc s = some (text, rest)) :
    ∃ inside added, Inside inside added ∧ text = acc.reverse ++ added ∧
      s = inside ++ '"' :: rest := by
  -- one more spelling in front of what the rest of the reading goes over
  have hstep {acc more text : List Char} {w : List Char} {c : Char} (hw : Spelling w c)
      (ih : ∃ inside added, Inside inside added ∧ text = (c :: acc).reverse ++ added ∧
        more = inside ++ '"' :: rest) :
      ∃ inside added, Inside inside added ∧ text = acc.reverse ++ added ∧
        w ++ more = inside ++ '"' :: rest := by
    obtain ⟨inside, added, hinside, rfl, rfl⟩ := ih
    exact ⟨w ++ inside, c :: added, .cons hw hinside, by simp, by simp⟩
  fun_induction scan acc s
  -- the closing quote
  case case2 =>
    obtain ⟨rfl, rfl⟩ := Prod.mk.inj (Option.some.inj h)
    exact ⟨[], [], .nil, by simp, rfl⟩
  -- a pair of numbers, and a number alone
  case case6 n hunit htrailing hleading e f g h' _ m hunit' htrailing' ih =>
    simp only [isTrailing, isLeading, Bool.and_eq_true, decide_eq_true_eq] at hleading htrailing'
    exact hstep (.pair (unit?_eq_some_iff.1 hunit) (unit?_eq_some_iff.1 hunit') hleading htrailing')
      (ih h)
  case case9 n hunit htrailing hleading ih =>
    simp only [isTrailing, isLeading, Bool.and_eq_true, decide_eq_true_eq] at htrailing hleading
    exact hstep (.number (unit?_eq_some_iff.1 hunit) (by omega)) (ih h)
  -- a letter after a backslash
  case case11 c rest _ d hletter ih =>
    exact hstep (.letter (letter?_eq_some_iff.1 hletter)) (ih h)
  -- any other character
  case case13 c rest hquote _ _ hplain ih =>
    rw [not_or, Nat.not_lt] at hplain
    exact hstep (.plain hplain.1 hquote hplain.2) (ih h)
  all_goals cases h

/-- **Literals.** What is read at the front of a text is a literal with its text, and what follows
it. -/
theorem parse?_eq_some_iff :
    parse? s = some (text, rest) ↔ ∃ literal, Spells literal text ∧ s = literal ++ rest := by
  constructor
  · intro h
    unfold parse? at h
    split at h
    case h_1 =>
      obtain ⟨inside, added, hinside, htext, rfl⟩ := exists_of_scan h
      obtain rfl : text = added := by simpa using htext
      exact ⟨_, ⟨inside, rfl, hinside⟩, by simp⟩
    case h_2 => cases h
  · rintro ⟨_, ⟨inside, rfl, hinside⟩, rfl⟩
    have hscan := scan_of_inside hinside [] rest
    simpa [parse?] using hscan

/-- A literal is read as its text, whatever follows it. -/
theorem Spells.parse?_append (h : Spells literal text) (rest : List Char) :
    parse? (literal ++ rest) = some (text, rest) :=
  parse?_eq_some_iff.2 ⟨literal, h, rfl⟩

/-- A literal begins with a quote. -/
theorem Spells.exists_cons (h : Spells literal text) : ∃ after, literal = '"' :: after := by
  obtain ⟨inside, rfl, -⟩ := h
  exact ⟨_, rfl⟩

end StringLiteral

end Keyring.Json
