import Keyring.Yaml.Gap
import Keyring.Yaml.Scalar.Writer

/-!
# Characters and gaps that stand for themselves

A printable character may stand in a document as it is. Between two characters of a scalar blanks
stand for themselves, and so do breaks that are no line feeds. White space between tokens ends where
something visible begins.

- `isAllowed_of_isPrintable`, `normalizeBreaks_eq_self`: a printable text stays as it is;
- `Gap.Stands`: gaps that stand for themselves, and what is added to them;
- `BeginsVisibly`: the texts that do not begin with more white space.
-/

namespace Keyring.Yaml

variable {c : Char} {s text : List Char} {p : Position} {m n : Nat}

/-! ### Places -/

namespace Position

@[simp] theorem skip_skip (p : Position) (m n : Nat) : (p.skip m).skip n = p.skip (m + n) := by
  simp [skip, Nat.add_assoc]

@[simp] theorem column_skip (p : Position) (n : Nat) : (p.skip n).column = p.column + n := rfl

@[simp] theorem column_nextLine (p : Position) : p.nextLine.column = 0 := rfl

theorem next_eq (p : Position) : p.next = p.skip 1 := rfl

@[simp] theorem skip_zero (p : Position) : p.skip 0 = p := rfl

end Position

/-! ### Printable texts -/

open ScalarWriter (isPrintable)

theorem isAllowed_of_isPrintable (h : isPrintable c = true) : isAllowed c = true := by
  simp only [isPrintable, isAllowed, Bool.or_eq_true, Bool.and_eq_true, decide_eq_true_eq] at h ⊢
  rcases h with ((hfeed | hascii) | ⟨hwide, -⟩) | hlarge
  · exact .inl (.inl (.inl (.inl (.inl (.inr hfeed)))))
  · exact .inl (.inl (.inr hascii))
  · exact .inl (.inr hwide)
  · exact .inr hlarge

theorem ne_of_isPrintable (h : isPrintable c = true) {d : Char} (hd : isPrintable d = false) :
    c ≠ d := by
  rintro rfl
  exact absurd (h.symm.trans hd) (by decide)

theorem eq_space_of_isBlank (h : isPrintable c = true) (hblank : isBlank c = true) : c = ' ' := by
  simp only [isBlank, Bool.or_eq_true, decide_eq_true_eq] at hblank
  exact hblank.resolve_right (ne_of_isPrintable h (by decide))

/-- The line breaks of a printable text are read as they are. -/
theorem normalizeBreaks_eq_self (h : s.all isPrintable = true) : normalizeBreaks s = s := by
  induction s with
  | nil => rfl
  | cons c s ih =>
    rw [List.all_cons, Bool.and_eq_true] at h
    -- no other way to end a line is printable
    have hreturn : c ≠ '\r' := ne_of_isPrintable h.1 (by decide)
    have hnext : c ≠ '\u0085' := ne_of_isPrintable h.1 (by decide)
    rw [normalizeBreaks, ih h.2]
    · rintro rest rfl -
      exact hreturn rfl
    · exact hreturn
    · exact hnext

/-! ### Gaps -/

namespace Gap

variable {gap : Gap}

/-- A gap that stands for itself: no line feed comes first in it. -/
def Stands : Gap → Prop
  | breaks first _ => ∃ c, first = some c ∧ c ≠ '\n'
  | _ => True

@[simp] theorem isBreaks_none : none.isBreaks = false := rfl

@[simp] theorem reverseText_none : none.reverseText = [] := rfl

theorem reverseText_addBlank (h : gap.isBreaks = false) (c : Char) :
    (gap.addBlank c).reverseText = c :: gap.reverseText := by
  cases gap with
  | none => rfl
  | blanks chars => rfl
  | breaks first more => cases h

theorem isBreaks_addBlank (gap : Gap) (c : Char) : (gap.addBlank c).isBreaks = gap.isBreaks := by
  cases gap <;> rfl

theorem isBreaks_addBreak (gap : Gap) (c : Char) : (gap.addBreak c).isBreaks = true := by
  cases gap <;> rfl

theorem addBlank_of_isBreaks (h : gap.isBreaks = true) (c : Char) : gap.addBlank c = gap := by
  cases gap with
  | none => cases h
  | blanks chars => cases h
  | breaks first more => rfl

theorem stands_of_isBreaks_eq_false (h : gap.isBreaks = false) : gap.Stands := by
  cases gap with
  | none => trivial
  | blanks chars => trivial
  | breaks first more => cases h

theorem Stands.addBreak (h : gap.Stands) (hc : c ≠ '\n') : (gap.addBreak c).Stands := by
  cases gap with
  | none => exact ⟨c, rfl, hc⟩
  | blanks chars => exact ⟨c, rfl, hc⟩
  | breaks first more => exact h

theorem reverseText_of_ne (hc : c ≠ '\n') (more : List Char) :
    reverseText (.breaks (some c) more) = more ++ [c] := by
  unfold reverseText
  split
  all_goals first | rfl | simp_all

/-- A break that is no line feed stands for itself, unless there are blanks before it. -/
theorem Stands.reverseText_addBreak (h : gap.Stands) (hblanks : ∀ chars, gap ≠ .blanks chars)
    (hc : c ≠ '\n') : (gap.addBreak c).reverseText = c :: gap.reverseText := by
  cases gap with
  | none => exact reverseText_of_ne hc []
  | blanks chars => exact absurd rfl (hblanks chars)
  | breaks first more =>
    obtain ⟨d, rfl, hd⟩ := h
    rw [Gap.addBreak, reverseText_of_ne hd, reverseText_of_ne hd, List.cons_append]

end Gap

/-! ### Between tokens -/

/-- A text that does not begin with white space, a comment or a mark of the order of bytes. -/
def BeginsVisibly (text : List Char) : Prop :=
  ∀ c ∈ text.head?, isBreak c = false ∧ isBlank c = false ∧ c ≠ '#' ∧ c ≠ '\ufeff'

end Keyring.Yaml
