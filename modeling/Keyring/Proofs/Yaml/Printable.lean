import Keyring.Proofs.Yaml.Block
import Keyring.Proofs.Yaml.Quoted

/-!
# What is written is printable

Whatever the characters of a text, those of its written form are printable: it stands for itself, in
quotes or not, only if they are, and is escaped otherwise.

- `mem_singleInside`, `mem_blockLines`: indentation and quotes are all that is added;
- `isPrintable_of_mem_escape`: an escape is printable;
- `style_cases`: the style of a text is one that it can be written in;
- `isPrintable_of_mem_line`: so is every written form.
-/

namespace Keyring.Yaml.ScalarWriter

variable {s : List Char} {c : Char} {indent n : Nat} {lineStart : Bool}

theorem isPrintable_of_hasSpecial (h : hasSpecial s = false) (hc : c ∈ s) :
    isPrintable c = true := by
  simpa using List.any_eq_false.1 h c hc

/-- Nothing but spaces and quotes is added in single quotes. -/
theorem mem_singleInside (h : c ∈ singleInside indent lineStart s) :
    c ∈ s ∨ c = ' ' ∨ c = '\'' := by
  induction s generalizing lineStart with
  | nil => grind [singleInside]
  | cons d s ih => grind [singleInside]

/-- Nothing but spaces is added in a block. -/
theorem mem_blockLines (h : c ∈ blockLines indent lineStart s) : c ∈ s ∨ c = ' ' := by
  induction s generalizing lineStart with
  | nil => cases h
  | cons d s ih => grind [blockLines]

theorem isPrintable_hexDigit : ∀ d < 16,
    isPrintable (Char.ofNat (if d < 10 then 48 + d else 55 + d)) = true := by
  decide

theorem isPrintable_of_mem_hexDigits {width : Nat} (h : c ∈ hexDigits n width) :
    isPrintable c = true := by
  induction width with
  | zero => cases h
  | succ width ih =>
    rw [hexDigits, List.mem_cons] at h
    rcases h with rfl | h
    · exact isPrintable_hexDigit _ (Nat.mod_lt _ (by decide))
    · exact ih h

theorem isPrintable_of_mem_escape {d : Char} (h : c ∈ escape d) : isPrintable c = true := by
  rcases Quoted.escape_cases d with ⟨e, hescape, he, -⟩ | ⟨k, width, hescape, hk, -⟩
  · rw [hescape, List.mem_cons, List.mem_singleton] at h
    rcases h with rfl | rfl
    · rfl
    · exact he
  · rw [hescape, List.mem_cons, List.mem_cons] at h
    rcases h with rfl | rfl | h
    · rfl
    · exact hk
    · exact isPrintable_of_mem_hexDigits h

theorem isPrintable_of_mem_double (h : c ∈ double s) : isPrintable c = true := by
  rw [double, List.cons_append, List.mem_cons, List.mem_append, List.mem_singleton,
    List.mem_flatMap] at h
  rcases h with rfl | ⟨d, -, hd⟩ | rfl
  · rfl
  · split_ifs at hd with hescaped
    · exact isPrintable_of_mem_escape hd
    · simp only [isEscaped, Bool.or_eq_true, Bool.not_eq_true', not_or,
        Bool.not_eq_false] at hescaped
      rw [List.eq_of_mem_singleton hd]
      exact hescaped.1.1.1
  · rfl

theorem isPrintable_of_mem_single (h : canBeSingle s = true) (hc : c ∈ single indent s) :
    isPrintable c = true := by
  simp only [canBeSingle, Bool.not_eq_true', Bool.or_eq_false_iff] at h
  rw [single, List.cons_append, List.mem_cons, List.mem_append, List.mem_singleton] at hc
  rcases hc with rfl | hc | rfl
  · rfl
  · rcases mem_singleInside hc with hc | rfl | rfl
    · exact isPrintable_of_hasSpecial h.1.1 hc
    · rfl
    · rfl
  · rfl

theorem isPrintable_of_mem_literal (h : canBeBlock s = true) (hc : c ∈ literal indent s) :
    isPrintable c = true := by
  simp only [canBeBlock, Bool.not_eq_true', Bool.or_eq_false_iff] at h
  rw [literal, List.mem_append, List.mem_cons] at hc
  rcases hc with hc | rfl | hc
  · have hheader : ∀ x ∈ blockHeader s, isPrintable x = true := by
      rw [← List.all_eq_true, blockHeader]
      split_ifs
      all_goals decide
    exact hheader c hc
  · rfl
  · rcases mem_blockLines hc with hc | rfl
    · exact isPrintable_of_hasSpecial h.1.1.2 hc
    · rfl

/-- The style of a text is one that it can be written in. -/
theorem style_cases (s : List Char) :
    (style s = .literal ∧ canBeBlock s = true) ∨
    (style s = .plain ∧ canBePlain s = true ∧ s ≠ []) ∨
    (style s = .singleQuoted ∧ canBeSingle s = true ∧ '\n' ∉ s) ∨
    style s = .doubleQuoted := by
  unfold style
  split_ifs with hfeed hblock hplain hsingle
  · exact .inl ⟨rfl, hblock⟩
  · exact .inr (.inr (.inr rfl))
  · rw [Bool.and_eq_true] at hplain
    refine .inr (.inl ⟨rfl, hplain.2, ?_⟩)
    -- the empty text would be read as a missing value
    rintro rfl
    cases hplain.1
  · exact .inr (.inr (.inl ⟨rfl, hsingle, by simpa using hfeed⟩))
  · exact .inr (.inr (.inr rfl))

/-- **Written texts.** Whatever the characters of a text, those of the line it is written in are
printable. -/
theorem isPrintable_of_mem_line (h : c ∈ line indent s) : isPrintable c = true := by
  rcases style_cases s with ⟨hstyle, hblock⟩ | ⟨hstyle, hplain, -⟩ | ⟨hstyle, hsingle, -⟩ | hstyle
  · rw [line, hstyle, List.mem_append] at h
    rcases h with h | h
    · exact isPrintable_of_mem_literal hblock h
    · split_ifs at h
      · cases h
      · rw [List.eq_of_mem_singleton h]
        rfl
  · simp only [canBePlain, Bool.not_eq_true', Bool.or_eq_false_iff] at hplain
    rw [line, hstyle, List.mem_append, List.mem_singleton] at h
    rcases h with h | rfl
    · exact isPrintable_of_hasSpecial hplain.1.1.1.1.1.1 h
    · rfl
  · rw [line, hstyle, List.mem_append, List.mem_singleton] at h
    rcases h with h | rfl
    · exact isPrintable_of_mem_single hsingle h
    · rfl
  · rw [line, hstyle, List.mem_append, List.mem_singleton] at h
    rcases h with h | rfl
    · exact isPrintable_of_mem_double h
    · rfl

end Keyring.Yaml.ScalarWriter
