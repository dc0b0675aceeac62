import Keyring.Proofs.Yaml.Character
import Keyring.Yaml.Scalar.Quoted
import Mathlib.Tactic.Ring
import Mathlib.Tactic.SplitIfs

/-!
# Quoted scalars as they are written

A text that can stand in single quotes is read as it was written: the indentation after its breaks
does not count, and no space stands beside a break. In double quotes, where everything can stand,
breaks and what is not printable are escaped, and each escape stands for its character.

- `single?_inside`: what is written in single quotes is read back;
- `readDouble_hexDigits`, `exists_readDouble_escape`: escapes stand for their characters;
- `double?_inside`: what is written in double quotes is read back.
-/

namespace Keyring.Yaml.Quoted

open ScalarWriter (isPrintable canBeSingle hasPair singleInside hexDigits escape isEscaped)

variable {s tail text rest : List Char} {c : Char} {gap : Gap} {p : Position} {indent n : Nat}

/-! ### Single quotes, one character -/

theorem readSingle_break (hbreak : isBreak c = true) : readSingle text gap p (c :: rest) =
    readSingle text (gap.addBreak c) p.nextLine rest := by
  rw [readSingle.eq_def]
  exact if_pos hbreak

theorem readSingle_blank (hbreak : isBreak c = false) (hblank : isBlank c = true) :
    readSingle text gap p (c :: rest) = readSingle text (gap.addBlank c) p.next rest := by
  rw [readSingle.eq_def]
  simp [hbreak, hblank]

theorem readSingle_visible (hbreak : isBreak c = false) (hblank : isBlank c = false)
    (hplace : 0 < p.column) (hquote : c ≠ '\'') : readSingle text gap p (c :: rest) =
      readSingle (c :: (gap.reverseText ++ text)) .none p.next rest := by
  rw [readSingle.eq_def]
  simp [hbreak, hblank, hquote, Nat.pos_iff_ne_zero.1 hplace]

/-- Two quotes stand for one. -/
theorem readSingle_quotes (hplace : 0 < p.column) : readSingle text gap p ('\'' :: '\'' :: rest) =
    readSingle ('\'' :: (gap.reverseText ++ text)) .none (p.skip 2) rest := by
  have hbreak : isBreak '\'' = false := by decide
  have hblank : isBlank '\'' = false := by decide
  rw [readSingle.eq_def]
  simp [hbreak, hblank, Nat.pos_iff_ne_zero.1 hplace]

/-- A single one ends the scalar. -/
theorem readSingle_close (hplace : 0 < p.column) (htail : tail.head? ≠ some '\'') :
    readSingle text gap p ('\'' :: tail) =
      some ((gap.reverseText ++ text).reverse, ⟨tail, p.next⟩) := by
  have hbreak : isBreak '\'' = false := by decide
  have hblank : isBlank '\'' = false := by decide
  cases tail with
  | nil =>
    rw [readSingle.eq_def]
    simp [hbreak, hblank, Nat.pos_iff_ne_zero.1 hplace]
  | cons c tail =>
    have hc : c ≠ '\'' := fun h => htail (congrArg some h)
    rw [readSingle.eq_def]
    simp [hbreak, hblank, Nat.pos_iff_ne_zero.1 hplace, hc]

/-- The indentation after a break does not count. -/
theorem readSingle_spaces (hgap : gap.isBreaks = true) (n : Nat) (text rest : List Char) :
    readSingle text gap p (List.replicate n ' ' ++ rest) = readSingle text gap (p.skip n) rest := by
  induction n generalizing p with
  | zero => rfl
  | succ n ih =>
    rw [List.replicate_succ, List.cons_append, readSingle_blank (by decide) (by decide),
      Gap.addBlank_of_isBreaks hgap, ih, Position.next_eq, Position.skip_skip, Nat.add_comm]

/-- What is written before a visible character, or before the closing quote, leads away from the
start of the line. -/
theorem exists_readSingle_indent (hindent : 0 < indent)
    (hplace : gap.isBreaks = false → 0 < p.column)
    (text rest : List Char) : ∃ q : Position, 0 < q.column ∧
      readSingle text gap p ((if gap.isBreaks then List.replicate indent ' ' else []) ++ rest) =
        readSingle text gap q rest := by
  cases hgap : gap.isBreaks with
  | false => exact ⟨p, hplace hgap, rfl⟩
  | true =>
    refine ⟨p.skip indent, ?_, readSingle_spaces hgap indent text rest⟩
    rw [Position.column_skip]
    omega

/-! ### Texts in single quotes -/

theorem head?_of_hasPair {first second : Char → Bool} (h : hasPair first second (c :: s) = false)
    (hc : first c = true) : ∀ d ∈ s.head?, second d = false := by
  cases s with
  | nil => exact nofun
  | cons d s =>
    rw [hasPair, hc, Bool.true_and, Bool.or_eq_false_iff] at h
    rintro e ⟨⟩
    exact h.1

theorem hasPair_tail {first second : Char → Bool} (h : hasPair first second (c :: s) = false) :
    hasPair first second s = false := by
  cases s with
  | nil => rfl
  | cons d s =>
    rw [hasPair, Bool.or_eq_false_iff] at h
    exact h.2

/-- The texts that stand for themselves in single quotes, where a gap may be before them. -/
structure Stands (gap : Gap) (s : List Char) : Prop where
  /-- They are printable and have no line feeds. -/
  printable : ∀ c ∈ s, isPrintable c = true ∧ c ≠ '\n'
  /-- No space stands before a break. -/
  ends : hasPair (· = ' ') isBreak s = false
  /-- No space stands behind a break. -/
  begins : hasPair isBreak (· = ' ') s = false
  /-- The gap stands for itself. -/
  gap_stands : gap.Stands
  /-- Blanks are not before a break. -/
  blanks : ∀ chars, gap = .blanks chars → ∀ c ∈ s.head?, isBreak c = false
  /-- Breaks are not before a space. -/
  breaks : gap.isBreaks = true → s.head? ≠ some ' '

namespace Stands

theorem of_canBeSingle (h : canBeSingle s = true) (hfeed : '\n' ∉ s) : Stands .none s := by
  simp only [canBeSingle, Bool.not_eq_true', Bool.or_eq_false_iff] at h
  obtain ⟨⟨hspecial, hends⟩, hbegins⟩ := h
  refine ⟨fun c hc => ⟨?_, fun h => hfeed (h ▸ hc)⟩, hends, hbegins, trivial, nofun, nofun⟩
  simpa using List.any_eq_false.1 hspecial c hc

theorem tail_printable (h : Stands gap (c :: s)) : ∀ d ∈ s, isPrintable d = true ∧ d ≠ '\n' :=
  fun d hd => h.printable d (List.mem_cons_of_mem c hd)

theorem gap_ne_blanks (h : Stands gap (c :: s)) (hbreak : isBreak c = true) (chars : List Char) :
    gap ≠ .blanks chars := fun hgap => by
  rw [h.blanks chars hgap c rfl] at hbreak
  cases hbreak

theorem addBreak (h : Stands gap (c :: s)) (hbreak : isBreak c = true) :
    Stands (gap.addBreak c) s := by
  have hgap := Gap.isBreaks_addBreak gap c
  refine ⟨h.tail_printable, hasPair_tail h.ends, hasPair_tail h.begins,
    h.gap_stands.addBreak (h.printable c List.mem_cons_self).2, fun chars hblanks => ?_,
      fun _ hspace => ?_⟩
  · rw [hblanks] at hgap
    cases hgap
  · have hnot := head?_of_hasPair h.begins hbreak ' ' hspace
    simp at hnot

theorem eq_space (h : Stands gap (c :: s)) (hblank : isBlank c = true) : c = ' ' :=
  eq_space_of_isBlank (h.printable c List.mem_cons_self).1 hblank

theorem isBreaks_eq_false (h : Stands gap (c :: s)) (hblank : isBlank c = true) :
    gap.isBreaks = false := by
  rw [Bool.eq_false_iff]
  intro hgap
  exact h.breaks hgap (congrArg some (h.eq_space hblank))

theorem addBlank (h : Stands gap (c :: s)) (hblank : isBlank c = true) :
    Stands (gap.addBlank c) s := by
  have hgap := (Gap.isBreaks_addBlank gap c).trans (h.isBreaks_eq_false hblank)
  refine ⟨h.tail_printable, hasPair_tail h.ends, hasPair_tail h.begins,
    Gap.stands_of_isBreaks_eq_false hgap, fun chars _ => ?_, fun hbreaks => ?_⟩
  · exact head?_of_hasPair h.ends (decide_eq_true (h.eq_space hblank))
  · cases hgap.symm.trans hbreaks

theorem visible (h : Stands gap (c :: s)) : Stands .none s :=
  ⟨h.tail_printable, hasPair_tail h.ends, hasPair_tail h.begins, trivial, nofun, nofun⟩

end Stands

/-- What is written in single quotes is read back, after any gap that stands for itself. -/
theorem exists_readSingle_inside (hindent : 0 < indent) (hstands : Stands gap s)
    (hplace : gap.isBreaks = false → 0 < p.column) (htail : tail.head? ≠ some '\'')
    (text : List Char) :
    ∃ q, readSingle text gap p (singleInside indent gap.isBreaks s ++ '\'' :: tail) =
      some ((gap.reverseText ++ text).reverse ++ s, ⟨tail, q⟩) := by
  induction s generalizing text gap p with
  | nil =>
    obtain ⟨q, hq, hread⟩ := exists_readSingle_indent hindent hplace text ('\'' :: tail)
    refine ⟨q.next, ?_⟩
    rw [singleInside, hread, readSingle_close hq htail, List.append_nil]
  | cons c s ih =>
    have htext : (c :: (gap.reverseText ++ text)).reverse ++ s =
        (gap.reverseText ++ text).reverse ++ c :: s := by simp
    by_cases hbreak : isBreak c = true
    case pos =>
      obtain ⟨q, hread⟩ := ih (hstands.addBreak hbreak) (p := p.nextLine)
        (fun h => by cases (Gap.isBreaks_addBreak gap c).symm.trans h) text
      refine ⟨q, ?_⟩
      rw [Gap.isBreaks_addBreak,
        hstands.gap_stands.reverseText_addBreak (hstands.gap_ne_blanks hbreak)
        (hstands.printable c List.mem_cons_self).2, List.cons_append, htext] at hread
      rw [singleInside, if_pos hbreak, List.cons_append, readSingle_break hbreak, hread]
    case neg =>
      -- a line that begins here is indented first
      obtain ⟨q, hq, hread⟩ := exists_readSingle_indent hindent hplace text
        ((if c = '\'' then ['\'', '\''] else [c]) ++ (singleInside indent false s ++ '\'' :: tail))
      rw [singleInside, if_neg hbreak, List.append_assoc, List.append_assoc, hread]
      rw [Bool.not_eq_true] at hbreak
      by_cases hblank : isBlank c = true
      case pos =>
        have hquote : c ≠ '\'' := by rw [hstands.eq_space hblank]; decide
        have hgap := hstands.isBreaks_eq_false hblank
        obtain ⟨r, hr⟩ := ih (hstands.addBlank hblank) (p := q.next) (fun _ => Nat.succ_pos _) text
        refine ⟨r, ?_⟩
        rw [Gap.isBreaks_addBlank, hgap, Gap.reverseText_addBlank hgap, List.cons_append,
          htext] at hr
        rw [if_neg hquote, List.singleton_append, readSingle_blank hbreak hblank, hr]
      case neg =>
        rw [Bool.not_eq_true] at hblank
        by_cases hquote : c = '\''
        case pos =>
          obtain ⟨r, hr⟩ := ih hstands.visible (p := q.skip 2) (fun _ => Nat.succ_pos _)
            (c :: (gap.reverseText ++ text))
          refine ⟨r, ?_⟩
          rw [Gap.isBreaks_none, Gap.reverseText_none, List.nil_append, htext] at hr
          subst hquote
          rw [if_pos rfl, List.cons_append, List.singleton_append, readSingle_quotes hq, hr]
        case neg =>
          obtain ⟨r, hr⟩ := ih hstands.visible (p := q.next) (fun _ => Nat.succ_pos _)
            (c :: (gap.reverseText ++ text))
          refine ⟨r, ?_⟩
          rw [Gap.isBreaks_none, Gap.reverseText_none, List.nil_append, htext] at hr
          rw [if_neg hquote, List.singleton_append, readSingle_visible hbreak hblank hq hquote, hr]

/-- **Single quotes.** A text without line feeds that can stand in single quotes is read back. -/
theorem single?_inside (h : canBeSingle s = true) (hfeed : '\n' ∉ s) (hindent : 0 < indent)
    (hplace : 0 < p.column) (htail : tail.head? ≠ some '\'') :
    ∃ q, single? ⟨singleInside indent false s ++ '\'' :: tail, p⟩ = some (s, ⟨tail, q⟩) :=
  exists_readSingle_inside hindent (Stands.of_canBeSingle h hfeed) (fun _ => hplace) htail []

/-! ### Double quotes, one character -/

theorem readDouble_blank (hbreak : isBreak c = false) (hblank : isBlank c = true) :
    readDouble text gap p .text (c :: rest) =
      readDouble text (gap.addBlank c) p.next .text rest := by
  rw [readDouble, hbreak, hblank]
  simp

theorem readDouble_visible (hbreak : isBreak c = false) (hblank : isBlank c = false)
    (hplace : 0 < p.column) (hquote : c ≠ '"') (hslash : c ≠ '\\') :
    readDouble text gap p .text (c :: rest) =
      readDouble (c :: (gap.reverseText ++ text)) .none p.next .text rest := by
  rw [readDouble, hbreak, hblank]
  simp [hquote, hslash, Nat.pos_iff_ne_zero.1 hplace]

theorem readDouble_close (hplace : 0 < p.column) : readDouble text gap p .text ('"' :: tail) =
    some ((gap.reverseText ++ text).reverse, ⟨tail, p.next⟩) := by
  have hbreak : isBreak '"' = false := by decide
  have hblank : isBlank '"' = false := by decide
  rw [readDouble, hbreak, hblank]
  simp [Nat.pos_iff_ne_zero.1 hplace]

/-- A backslash begins an escape. -/
theorem readDouble_backslash (hplace : 0 < p.column) : readDouble text gap p .text ('\\' :: rest) =
    readDouble (gap.reverseText ++ text) .none p.next .escape rest := by
  have hbreak : isBreak '\\' = false := by decide
  have hblank : isBlank '\\' = false := by decide
  rw [readDouble, hbreak, hblank]
  simp [Nat.pos_iff_ne_zero.1 hplace]

/-! ### Escapes -/

theorem digit?_hexDigit : ∀ d < 16,
    Text.digit? 16 (Char.ofNat (if d < 10 then 48 + d else 55 + d)) = some d := by
  decide

/-- The digits of a number stand for its character. -/
theorem readDouble_hexDigits {width value : Nat} (hwidth : 0 < width)
    (h : character? (value * 16 ^ width + n % 16 ^ width) = some c) (text rest : List Char) :
    readDouble text .none p (.digits width value) (hexDigits n width ++ rest) =
      readDouble (c :: text) .none (p.skip width) .text rest := by
  induction width generalizing p value with
  | zero => cases hwidth
  | succ width ih =>
    have hdigit := digit?_hexDigit (n / 16 ^ width % 16) (Nat.mod_lt _ (by decide))
    -- the value so far is multiplied by the base, as the digits before it are
    have hvalue : value * 16 ^ (width + 1) + n % 16 ^ (width + 1) =
        (16 * value + n / 16 ^ width % 16) * 16 ^ width + n % 16 ^ width := by
      rw [Nat.mod_pow_succ, Nat.pow_succ]
      ring
    rw [hvalue] at h
    rw [hexDigits, List.cons_append, readDouble]
    simp only [Nat.pow_eq, hdigit]
    rcases Nat.eq_zero_or_pos width with rfl | hmore
    · have hlast : character? (16 * value + n / 16 ^ 0 % 16) = some c := by
        simpa [Nat.mod_one] using h
      rw [if_pos (Nat.le_refl 1), hlast]
      rfl
    · rw [if_neg (by omega), Nat.add_sub_cancel, ih hmore h, Position.next_eq, Position.skip_skip,
        Nat.add_comm]

/-- An escape is one character after the backslash, or one that tells how many digits follow. -/
theorem escape_cases (c : Char) :
    (∃ e, escape c = ['\\', e] ∧ isPrintable e = true ∧ isBreak e = false ∧ escape? e = some c) ∨
    (∃ k width, escape c = '\\' :: k :: hexDigits c.toNat width ∧ isPrintable k = true ∧
      isBreak k = false ∧ escape? k = none ∧ digits? k = some width ∧ 0 < width ∧
      c.toNat < 16 ^ width) := by
  unfold escape
  split
  case h_15 =>
    -- a character has at most eight digits
    have hmax : c.toNat < 16 ^ 8 := c.val.toNat_lt
    refine .inr ?_
    split_ifs with hbyte hword
    · exact ⟨'x', 2, rfl, rfl, rfl, rfl, rfl, by decide, Nat.lt_succ_of_le hbyte⟩
    · exact ⟨'u', 4, rfl, rfl, rfl, rfl, rfl, by decide, Nat.lt_succ_of_le hword⟩
    · exact ⟨'U', 8, rfl, rfl, rfl, rfl, rfl, by decide, hmax⟩
  all_goals exact .inl ⟨_, rfl, rfl, rfl, rfl⟩

theorem character?_toNat (c : Char) : character? c.toNat = some c := by
  have hvalid : c.toNat.isValidChar := c.valid
  rw [character?, if_pos hvalid, Char.ofNat_toNat]

/-- An escape stands for its character. -/
theorem exists_readDouble_escape (hplace : 0 < p.column) (c : Char) (text rest : List Char) :
    ∃ q : Position, 0 < q.column ∧ readDouble text gap p .text (escape c ++ rest) =
      readDouble (c :: (gap.reverseText ++ text)) .none q .text rest := by
  rcases escape_cases c with ⟨e, hescape, -, hbreak, hc⟩ |
    ⟨k, width, hescape, -, hbreak, hnone, hdigits, hwidth, hlt⟩
  · refine ⟨p.next.next, Nat.succ_pos _, ?_⟩
    rw [hescape, List.cons_append, List.singleton_append, readDouble_backslash hplace, readDouble,
      hbreak, hc]
    rfl
  · refine ⟨p.next.next.skip width, Nat.lt_of_lt_of_le (Nat.succ_pos _) (Nat.le_add_right _ _), ?_⟩
    have hvalue : character? (0 * 16 ^ width + c.toNat % 16 ^ width) = some c := by
      rw [Nat.zero_mul, Nat.zero_add, Nat.mod_eq_of_lt hlt, character?_toNat]
    rw [hescape, List.cons_append, List.cons_append, readDouble_backslash hplace, readDouble,
      hbreak, hnone, hdigits]
    exact readDouble_hexDigits hwidth hvalue _ rest

/-! ### Texts in double quotes -/

/-- What is written in double quotes is read back, after any blanks. -/
theorem exists_readDouble_inside (hgap : gap.isBreaks = false) (hplace : 0 < p.column)
    (text : List Char) :
    ∃ q, readDouble text gap p .text
        (s.flatMap (fun c => if isEscaped c then escape c else [c]) ++ '"' :: tail) =
      some ((gap.reverseText ++ text).reverse ++ s, ⟨tail, q⟩) := by
  induction s generalizing text gap p with
  | nil =>
    refine ⟨p.next, ?_⟩
    rw [List.flatMap_nil, List.nil_append, readDouble_close hplace, List.append_nil]
  | cons c s ih =>
    have htext : (c :: (gap.reverseText ++ text)).reverse ++ s =
        (gap.reverseText ++ text).reverse ++ c :: s := by simp
    rw [List.flatMap_cons, List.append_assoc]
    split_ifs with hescaped
    · obtain ⟨q, hq, hread⟩ := exists_readDouble_escape hplace c text _
      obtain ⟨r, hr⟩ := ih Gap.isBreaks_none hq (c :: (gap.reverseText ++ text))
      rw [Gap.reverseText_none, List.nil_append, htext] at hr
      exact ⟨r, hread.trans hr⟩
    · simp only [isEscaped, Bool.or_eq_true, Bool.not_eq_true', decide_eq_true_eq, not_or,
        Bool.not_eq_true] at hescaped
      obtain ⟨⟨⟨-, hbreak⟩, hquote⟩, hslash⟩ := hescaped
      rw [List.singleton_append]
      by_cases hblank : isBlank c = true
      case pos =>
        obtain ⟨r, hr⟩ := ih ((Gap.isBreaks_addBlank gap c).trans hgap) (p := p.next)
          (Nat.succ_pos _) text
        rw [Gap.reverseText_addBlank hgap, List.cons_append, htext] at hr
        exact ⟨r, (readDouble_blank hbreak hblank).trans hr⟩
      case neg =>
        rw [Bool.not_eq_true] at hblank
        obtain ⟨r, hr⟩ := ih Gap.isBreaks_none (p := p.next) (Nat.succ_pos _)
          (c :: (gap.reverseText ++ text))
        rw [Gap.reverseText_none, List.nil_append, htext] at hr
        exact ⟨r, (readDouble_visible hbreak hblank hplace hquote hslash).trans hr⟩

/-- **Double quotes.** Any text in double quotes is read back. -/
theorem double?_inside (hplace : 0 < p.column) :
    ∃ q, double? ⟨s.flatMap (fun c => if isEscaped c then escape c else [c]) ++ '"' :: tail, p⟩ =
      some (s, ⟨tail, q⟩) :=
  exists_readDouble_inside Gap.isBreaks_none hplace []

end Keyring.Yaml.Quoted
