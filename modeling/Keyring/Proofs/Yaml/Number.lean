import Keyring.Proofs.Text.Digits
import Keyring.Yaml.Number
import Keyring.Yaml.Scalar.Writer

/-!
# Numbers as they are written

A number is written in decimal digits, of which the first is no zero, unless it is zero. So it is
neither a number of another base nor a text with leading zeros, and is read back. Nothing in it
keeps it from being plain.

- `digits?_toDigits`: the digits of a number stand for it;
- `natural?_toDigits`: they are read as that number;
- `canBePlain_of_isDigit`: digits can be plain.
-/

namespace Keyring

open Yaml

variable {c : Char} {s : List Char} {n bound acc : Nat}

/-! ### Digits -/

theorem mem_of_isDigit (h : c.isDigit = true) : c ∈ "0123456789".toList := by
  simp only [Char.isDigit, Bool.and_eq_true, decide_eq_true_eq] at h
  have hlow : 48 ≤ c.toNat := h.1
  have hhigh : c.toNat ≤ 57 := h.2
  have hall : ∀ n < 58, 48 ≤ n → Char.ofNat n ∈ "0123456789".toList := by decide
  rw [← Char.ofNat_toNat c]
  exact hall c.toNat (by omega) hlow

theorem digit?_of_isDigit (h : c.isDigit = true) : Text.digit? 10 c = some (c.toNat - 48) := by
  simp only [Char.isDigit, Bool.and_eq_true, decide_eq_true_eq] at h
  exact Text.digit?_eq_some_iff.2 ⟨h, rfl⟩

theorem digitsFrom_of_isDigit (h : ∀ c ∈ s, c.isDigit = true) :
    Text.digitsFrom 10 acc s = some (Nat.ofDigitChars 10 s acc) := by
  induction s generalizing acc with
  | nil => rfl
  | cons c s ih =>
    rw [Text.digitsFrom, digit?_of_isDigit (h c List.mem_cons_self), Nat.ofDigitChars_cons]
    exact ih fun d hd => h d (List.mem_cons_of_mem c hd)

theorem isDigit_toDigits (n : Nat) : ∀ c ∈ Nat.toDigits 10 n, c.isDigit = true :=
  fun _ => Nat.isDigit_of_mem_toDigits (by decide) (by decide)

/-- The digits of a number stand for it. -/
theorem digits?_toDigits (n : Nat) : Text.digits? 10 (Nat.toDigits 10 n) = some n := by
  rw [Text.digits?, if_neg Nat.toDigits_ne_nil, digitsFrom_of_isDigit (isDigit_toDigits n),
    Nat.ofDigitChars_ten_toDigits]

/-- The first digit of a positive number is no zero. -/
theorem head?_toDigits_ne (h : 0 < n) : (Nat.toDigits 10 n).head? ≠ some '0' := by
  induction n using Nat.strongRecOn with
  | _ n ih =>
    by_cases hsmall : n < 10
    case pos =>
      have hall : ∀ n < 10, 0 < n → Nat.digitChar n ≠ '0' := by decide
      rw [Nat.toDigits_of_lt_base hsmall, List.head?_cons]
      intro hzero
      exact hall n hsmall h (Option.some.inj hzero)
    case neg =>
      have hfront := ih (n / 10) (Nat.div_lt_self h (by decide)) (by omega)
      obtain ⟨d, more, hd⟩ :=
        List.exists_cons_of_ne_nil (Nat.toDigits_ne_nil (n := n / 10) (b := 10))
      rw [hd] at hfront
      rw [Nat.toDigits_of_base_le (by decide) (Nat.not_lt.1 hsmall), hd]
      exact hfront

namespace Yaml

/-! ### Reading -/

theorem head?_ne_of_isDigit (h : ∀ c ∈ s, c.isDigit = true) {d : Char} (hd : d.isDigit = false) :
    s.head? ≠ some d := by
  intro hhead
  exact absurd ((h d (List.mem_of_mem_head? hhead)).symm.trans hd) (by decide)

/-- A number has no leading zeros. -/
theorem hasLeadingZero_toDigits (n : Nat) : hasLeadingZero (Nat.toDigits 10 n) = false := by
  have hplus := head?_ne_of_isDigit (isDigit_toDigits n) (show '+'.isDigit = false by decide)
  have hminus := head?_ne_of_isDigit (isDigit_toDigits n) (show '-'.isDigit = false by decide)
  rcases Nat.eq_zero_or_pos n with rfl | hpos
  · rfl
  · simp [hasLeadingZero, hplus, hminus, head?_toDigits_ne hpos]

/-- The sign of another base is no digit. -/
theorem based?_of_isDigit (h : ∀ c ∈ s, c.isDigit = true) : based? s = none := by
  unfold based?
  split
  case h_4 => rfl
  all_goals cases h _ (List.mem_cons_of_mem _ List.mem_cons_self)

/-- The digits of a number are read as it. -/
theorem natural?_toDigits (h : n < bound) : natural? bound (Nat.toDigits 10 n) = some n := by
  have hplus := head?_ne_of_isDigit (isDigit_toDigits n) (show '+'.isDigit = false by decide)
  rw [natural?, if_neg hplus]
  simp [based?_of_isDigit (isDigit_toDigits n), hasLeadingZero_toDigits, digits?_toDigits, h]

/-! ### Writing -/

open ScalarWriter

/-- What is to be known of a digit for it to be plain. -/
theorem digit_plain (h : c.isDigit = true) : isPrintable c = true ∧ isBreak c = false ∧
    isBlank c = false ∧ c ≠ ':' ∧ c ≠ '#' := by
  have hall : "0123456789".toList.all (fun d => isPrintable d && !isBreak d && !isBlank d &&
      d != ':' && d != '#') = true := by decide
  have hdigit := List.all_eq_true.1 hall c (mem_of_isDigit h)
  simpa only [Bool.and_eq_true, Bool.not_eq_true', bne_iff_ne, and_assoc] using hdigit

theorem hasIndicatorInside_of_isDigit (h : ∀ c ∈ s, c.isDigit = true) :
    hasIndicatorInside false s = false := by
  induction s with
  | nil => rfl
  | cons c s ih =>
    obtain ⟨-, hbreak, hblank, hcolon, -⟩ := digit_plain (h c List.mem_cons_self)
    have hs := ih fun d hd => h d (List.mem_cons_of_mem c hd)
    simp [hasIndicatorInside, hbreak, hblank, hcolon, hs]

theorem canBePlain_of_isDigit (h : ∀ c ∈ s, c.isDigit = true) : canBePlain s = true := by
  have hspecial : hasSpecial s = false := by
    rw [hasSpecial, List.any_eq_false]
    intro c hc
    simp [(digit_plain (h c hc)).1]
  have hline : s.any isBreak = false := by
    rw [List.any_eq_false]
    intro c hc
    simp [(digit_plain (h c hc)).2.1]
  have hlast : s.getLast? ≠ some ' ' := by
    intro hlast
    cases h ' ' (List.mem_of_getLast? hlast)
  have hfirst := head?_ne_of_isDigit h (show ' '.isDigit = false by decide)
  have hstart : beginsLikeMarker s = false ∧ hasIndicatorAtStart s = false := by
    cases s with
    | nil => exact ⟨rfl, rfl⟩
    | cons c s =>
      have hall : "0123456789".toList.all (fun d => '-' != d && '.' != d &&
          !"#,[]\x7b\x7d&*!|>'\"%@`".toList.contains d &&
          !(d = '?' || d = ':' || d = '-')) = true := by
        decide
      have hdigit := List.all_eq_true.1 hall c (mem_of_isDigit (h c List.mem_cons_self))
      simp only [Bool.and_eq_true, Bool.not_eq_true', bne, and_assoc] at hdigit
      obtain ⟨hhyphen, hdot, hmarks, hother⟩ := hdigit
      constructor
      · rw [beginsLikeMarker]
        show ('-' == c && _ || '.' == c && _) = false
        rw [hhyphen, hdot]
        rfl
      · rw [hasIndicatorAtStart, hmarks, hother]
        rfl
  simp [canBePlain, hspecial, hline, hlast, hfirst, hstart, hasIndicatorInside_of_isDigit h]

end Yaml

end Keyring
