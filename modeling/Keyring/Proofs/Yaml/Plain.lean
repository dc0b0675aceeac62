import Keyring.Proofs.Yaml.Character
import Keyring.Yaml.Scalar.Plain

/-!
# Plain scalars as they are written

All characters of a text that can be plain belong to the scalar that begins with it. It ends before
the colon of a key, and at the end of its line if the next one is not indented as its lines are.

- `read?_eq`: a text that can be plain is read to its end;
- `readFrom_colon`, `readFrom_break`: what ends it.
-/

namespace Keyring.Yaml.Plain

open ScalarWriter (canBePlain hasIndicatorInside isPrintable)

variable {s tail text rest : List Char} {c : Char} {gap : Gap} {p : Position} {floor columns : Nat}

/-- What is asked of a place in a line, where white space may be before it. -/
def IsInside (floor : Nat) (gap : Gap) (p : Position) : Prop :=
  floor ≤ p.column + 1 ∧ (gap.isNone = false → 0 < p.column ∧ floor ≤ p.column)

theorem IsInside.next (h : IsInside floor gap p) (gap' : Gap) : IsInside floor gap' p.next := by
  obtain ⟨hfloor, -⟩ := h
  rw [Position.next_eq, IsInside, Position.column_skip]
  omega

theorem atSpace_append (h : atSpace s = false) (tail : List Char) :
    atSpace (s ++ tail) = false := by
  cases s with
  | nil => cases h
  | cons c s => exact h

/-! ### One character -/

/-- A blank waits for what comes after it. -/
theorem readFrom_blank (hbreak : isBreak c = false) (hblank : isBlank c = true)
    (hgap : gap.isBreaks = false) (text rest : List Char) :
    readFrom false floor text gap p (c :: rest) =
      readFrom false floor text (gap.addBlank c) p.next rest := by
  rw [readFrom, hbreak, hblank, hgap]
  simp

/-- A visible character belongs to the scalar if it is no colon before white space and no number
sign after it. -/
theorem readFrom_visible (hbreak : isBreak c = false) (hblank : isBlank c = false)
    (hcolon : (c = ':' && atSpace rest) = false) (hnumber : (c = '#' && !gap.isNone) = false)
    (hplace : IsInside floor gap p) (text : List Char) :
    readFrom false floor text gap p (c :: rest) =
      readFrom false floor (c :: (gap.reverseText ++ text)) .none p.next rest := by
  have hgoes : (!gap.isNone && endsAfterGap false floor (c :: rest) p) = false := by
    rw [Bool.and_eq_false_imp, Bool.not_eq_true']
    intro hgap
    obtain ⟨hcolumn, hfloor⟩ := hplace.2 hgap
    have hc : c ≠ '#' := by
      rintro rfl
      simp [hgap] at hnumber
    have hzero : p.column ≠ 0 := Nat.pos_iff_ne_zero.1 hcolumn
    simp [endsAfterGap, hc, hzero, hfloor]
  have hends : endsAt false c rest = false := by
    rw [endsAt, hcolon]
    rfl
  rw [readFrom, hbreak, hblank, hgoes, hends]
  simp [isStrayColon]

/-- The last character decides whether white space is left after a text. -/
theorem endsBlank_cons (c : Char) (s : List Char) (b : Bool) :
    (((c :: s).getLast?.map fun c => !isBlank c).getD b) =
      ((s.getLast?.map fun c => !isBlank c).getD !isBlank c) := by
  cases s with
  | nil => rfl
  | cons d s =>
    rw [List.getLast?_cons_cons, List.getLast?_cons]
    rfl

/-! ### A whole text -/

/-- The characters of a line belong to the scalar, as long as nothing in the line ends it. -/
theorem exists_readFrom_append (hplace : IsInside floor gap p) (hline : s.any isBreak = false)
    (hinside : hasIndicatorInside (!gap.isNone) s = false) (hgap : gap.isBreaks = false)
    (text tail : List Char) : ∃ text' gap', readFrom false floor text gap p (s ++ tail) =
        readFrom false floor text' gap' (p.skip s.length) tail ∧
      gap'.reverseText ++ text' = s.reverse ++ (gap.reverseText ++ text) ∧
      gap'.isNone = (s.getLast?.map fun c => !isBlank c).getD gap.isNone := by
  induction s generalizing text gap p with
  | nil => exact ⟨text, gap, rfl, rfl, rfl⟩
  | cons c s ih =>
    rw [List.any_cons, Bool.or_eq_false_iff] at hline
    rw [hasIndicatorInside, Bool.or_eq_false_iff, Bool.or_eq_false_iff, hline.1, Bool.or_false]
      at hinside
    obtain ⟨⟨hcolon, hnumber⟩, hinside⟩ := hinside
    have hskip : p.next.skip s.length = p.skip (c :: s).length := by
      rw [Position.next_eq, Position.skip_skip, List.length_cons, Nat.add_comm]
    by_cases hblank : isBlank c = true
    case pos =>
      have hwaits : (gap.addBlank c).isNone = false := by cases gap <;> rfl
      have hinside' : hasIndicatorInside (!(gap.addBlank c).isNone) s = false := by
        rwa [hwaits, Bool.not_false, ← hblank]
      obtain ⟨text', gap', hread, htext, hnone⟩ := ih (hplace.next _) hline.2 hinside'
        ((Gap.isBreaks_addBlank gap c).trans hgap) text
      refine ⟨text', gap', ?_, ?_, ?_⟩
      · rw [List.cons_append, readFrom_blank hline.1 hblank hgap, hread, hskip]
      · rw [htext, Gap.reverseText_addBlank hgap, List.reverse_cons, List.append_assoc]
        rfl
      · rw [hnone, endsBlank_cons, hwaits, hblank]
        rfl
    case neg =>
      rw [Bool.not_eq_true] at hblank
      have hcolon' : (c = ':' && atSpace (s ++ tail)) = false := by
        rw [Bool.and_eq_false_imp]
        intro hc
        rw [hc, Bool.true_and] at hcolon
        exact atSpace_append hcolon tail
      have hinside' : hasIndicatorInside (!Gap.none.isNone) s = false := by rwa [hblank] at hinside
      obtain ⟨text', gap', hread, htext, hnone⟩ := ih (hplace.next _) hline.2 hinside'
        Gap.isBreaks_none (c :: (gap.reverseText ++ text))
      refine ⟨text', gap', ?_, ?_, ?_⟩
      · rw [List.cons_append, readFrom_visible hline.1 hblank hcolon' hnumber hplace, hread, hskip]
      · rw [htext, Gap.reverseText, List.nil_append, List.reverse_cons, List.append_assoc]
        rfl
      · rw [hnone, endsBlank_cons, hblank]
        rfl

/-- **Plain texts.** A text that can be plain is read to its end, whatever follows it. -/
theorem read?_eq (h : canBePlain s = true) (hne : s ≠ []) (hfloor : floor ≤ p.column + 1)
    (tail : List Char) : read? false floor ⟨s ++ tail, p⟩ =
      readFrom false floor s.reverse .none (p.skip s.length) tail := by
  simp only [canBePlain, Bool.not_eq_true', Bool.or_eq_false_iff, decide_eq_false_iff_not] at h
  obtain ⟨⟨⟨⟨⟨⟨hspecial, hline⟩, -⟩, hlast⟩, -⟩, -⟩, hinside⟩ := h
  have hplace : IsInside floor .none p := ⟨hfloor, nofun⟩
  obtain ⟨text, gap, hread, htext, hnone⟩ :=
    exists_readFrom_append hplace hline hinside Gap.isBreaks_none [] tail
  -- no blank is left at its end
  have hgap : gap = .none := by
    have hc : s.getLast? = some (s.getLast hne) := List.getLast?_eq_some_getLast hne
    generalize s.getLast hne = c at hc
    have hprintable : isPrintable c = true := by
      have hc' := List.any_eq_false.1 hspecial c (List.mem_of_getLast? hc)
      simpa using hc'
    have hblank : isBlank c = false := by
      rw [Bool.eq_false_iff]
      intro hblank
      exact hlast (hc.trans (congrArg some (eq_space_of_isBlank hprintable hblank)))
    rw [hc, Option.map_some, Option.getD_some, hblank] at hnone
    cases gap <;> first | rfl | cases hnone
  subst hgap
  have hs : text = s.reverse := by simpa [Gap.reverseText] using htext
  rw [read?, hread, hs]

/-! ### The end of a scalar -/

theorem readFrom_colon (htail : atSpace tail = true) :
    readFrom false floor text .none p (':' :: tail) =
    some ⟨text.reverse, ⟨':' :: tail, p⟩, false⟩ := by
  have hbreak : isBreak ':' = false := by decide
  have hblank : isBlank ':' = false := by decide
  simp [readFrom, hbreak, hblank, isStrayColon, endsAt, htail, stop, Gap.isBreaks, Gap.isNone]

/-- Blanks after a break do not count. -/
theorem readFrom_spaces (hgap : gap.isBreaks = true) (n : Nat) :
    readFrom false floor text gap p (List.replicate n ' ' ++ rest) =
      readFrom false floor text gap (p.skip n) rest := by
  induction n generalizing p with
  | zero => rfl
  | succ n ih =>
    have hbreak : isBreak ' ' = false := by decide
    have hblank : isBlank ' ' = true := by decide
    rw [List.replicate_succ, List.cons_append, readFrom, hbreak, hblank,
      Gap.addBlank_of_isBreaks hgap, Nat.add_comm, ← Position.skip_skip, ← Position.next_eq, ← ih]
    simp

/-- A scalar ends with its line if what follows does not stand as far to the right as its lines
would. -/
theorem readFrom_break (hcolumns : columns < floor) (hrest : BeginsVisibly rest) :
    readFrom false floor text .none p ('\n' :: (List.replicate columns ' ' ++ rest)) =
      some ⟨text.reverse, ⟨rest, p.nextLine.skip columns⟩, true⟩ := by
  have hfeed : isBreak '\n' = true := by decide
  rw [readFrom, hfeed, if_pos rfl, readFrom_spaces rfl]
  cases rest with
  | nil => rfl
  | cons c rest =>
    obtain ⟨hbreak, hblank, -⟩ := hrest c rfl
    have hends : endsAfterGap false floor (c :: rest) (p.nextLine.skip columns) = true := by
      simp [endsAfterGap, hcolumns]
    rw [readFrom, hbreak, hblank, hends]
    rfl

end Keyring.Yaml.Plain
