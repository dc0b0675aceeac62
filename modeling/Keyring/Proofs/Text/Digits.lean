import Mathlib.Data.Nat.Digits.Defs
import Keyring.Text.Digits

/-!
# Numbers as they are read

A number is read digit by digit, each multiplying what was read before by the base. What comes out
is the value of the digits by their places, and nothing is read of a text that is not made of
digits.

- `Decimal`: the texts of a number: decimal digits, with a plus sign before them or none;
- `digitsFrom_eq_some_iff`: what was read before stands for the digits that it was read from;
- `unsigned?_eq_some_iff`: a number is read of its texts, below the bound.
-/

namespace Keyring.Text

/-- A decimal digit. -/
def DecimalDigit (c : Char) : Prop := '0' ≤ c ∧ c ≤ '9'

/-- The value of decimal digits, the first of which has the highest place. -/
def valueOf (digits : List Char) : Nat :=
  Nat.ofDigits 10 (digits.reverse.map fun c => c.toNat - 48)

/-- The text of a number: one or more decimal digits, with a plus sign before them or none. -/
def Decimal (text : List Char) (n : Nat) : Prop :=
  ∃ sign digits, (sign = [] ∨ sign = ['+']) ∧ digits ≠ [] ∧ (∀ c ∈ digits, DecimalDigit c) ∧
    text = sign ++ digits ∧ n = valueOf digits

variable {text digits : List Char} {c : Char} {acc n m bound x : Nat}

theorem valueOf_cons (c : Char) (digits : List Char) :
    valueOf (c :: digits) = (c.toNat - 48) * 10 ^ digits.length + valueOf digits := by
  rw [valueOf, List.reverse_cons, List.map_append, Nat.ofDigits_append]
  simp only [List.map_cons, List.map_nil, Nat.ofDigits_singleton, List.length_map,
    List.length_reverse, valueOf]
  ring

theorem digit?_eq_some_iff : digit? 10 c = some x ↔ DecimalDigit c ∧ x = c.toNat - 48 := by
  -- a letter is a digit of a larger base only
  have hletter (hlow : 'a' ≤ c) : ¬c.toNat - 87 < 10 := by
    have hle : 97 ≤ c.toNat := hlow
    omega
  have hcapital (hlow : 'A' ≤ c) : ¬c.toNat - 55 < 10 := by
    have hle : 65 ≤ c.toNat := hlow
    omega
  have hvalue (hhigh : c ≤ '9') : c.toNat - 48 < 10 := by
    have hle : c.toNat ≤ 57 := hhigh
    omega
  simp only [digit?, DecimalDigit, Bool.and_eq_true, decide_eq_true_eq]
  split_ifs with hdigit hlower hlower hupper hupper
  all_goals simp_all [eq_comm]

/-- What was read before stands for the digits that it was read from. -/
theorem digitsFrom_eq_some_iff :
    digitsFrom 10 acc digits = some n ↔
      (∀ c ∈ digits, DecimalDigit c) ∧ n = acc * 10 ^ digits.length + valueOf digits := by
  induction digits generalizing acc with
  | nil => simp [digitsFrom, valueOf, eq_comm]
  | cons c digits ih =>
    rw [digitsFrom]
    cases hc : digit? 10 c with
    | none =>
      have hno : ¬DecimalDigit c := fun hdigit => by
        rw [digit?_eq_some_iff.2 ⟨hdigit, rfl⟩] at hc
        cases hc
      simp [hno]
    | some x =>
      obtain ⟨hdigit, rfl⟩ := digit?_eq_some_iff.1 hc
      have hplaces : (10 * acc + (c.toNat - 48)) * 10 ^ digits.length + valueOf digits =
          acc * 10 ^ (c :: digits).length + valueOf (c :: digits) := by
        rw [valueOf_cons, List.length_cons]
        ring
      dsimp only
      rw [ih, hplaces]
      simp [hdigit]

theorem digits?_eq_some_iff : digits? 10 digits = some n ↔
    digits ≠ [] ∧ (∀ c ∈ digits, DecimalDigit c) ∧ n = valueOf digits := by
  unfold digits?
  split
  case isTrue h => simp [h]
  case isFalse h => simp [h, digitsFrom_eq_some_iff]

/-- A number is read of its texts, below the bound. -/
theorem unsigned?_eq_some_iff : unsigned? bound text = some n ↔ Decimal text n ∧ n < bound := by
  rw [unsigned?, Option.filter_eq_some_iff, digits?_eq_some_iff, decide_eq_true_eq]
  apply and_congr_left
  intro _
  constructor
  · rintro ⟨hne, hall, hn⟩
    by_cases hsign : text.head? = some '+'
    case pos =>
      obtain ⟨digits, rfl⟩ := List.head?_eq_some_iff.1 hsign
      exact ⟨['+'], digits, .inr rfl, hne, hall, rfl, hn⟩
    case neg =>
      rw [if_neg hsign] at hne hall hn
      exact ⟨[], text, .inl rfl, hne, hall, rfl, hn⟩
  · rintro ⟨sign, digits, hsign, hne, hall, htext, hn⟩
    rcases hsign with rfl | rfl
    · obtain rfl : text = digits := htext
      -- a sign is no digit
      have hplus : ¬DecimalDigit '+' := by
        unfold DecimalDigit
        decide
      have hsign : text.head? ≠ some '+' := fun hhead =>
        hplus (hall _ (List.mem_of_mem_head? hhead))
      rw [if_neg hsign]
      exact ⟨hne, hall, hn⟩
    · subst htext
      exact ⟨hne, hall, hn⟩

/-- A text is the text of one number at most. -/
theorem Decimal.unique (h : Decimal text n) (h' : Decimal text m) : n = m := by
  have hread := unsigned?_eq_some_iff.2 ⟨h, Nat.lt_succ_of_le (Nat.le_max_left n m)⟩
  have hread' := unsigned?_eq_some_iff.2 ⟨h', Nat.lt_succ_of_le (Nat.le_max_right n m)⟩
  exact Option.some.inj (hread.symm.trans hread')

end Keyring.Text
