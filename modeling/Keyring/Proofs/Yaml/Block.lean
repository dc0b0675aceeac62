import Keyring.Proofs.Yaml.Character
import Keyring.Yaml.Scalar.Block

/-!
# Literal blocks as they are written

The lines of a block are indented by as many columns as the reader takes for its indentation: the
header gives them where the first line does not show them. The breaks at the end of a text decide
about the chomping, and with it all of them are read back.

- `exists_readLines_lines`: the lines are read back, whatever was read before;
- `exists_readLines_block`: a whole text with the break that ends its last line;
- `exists_read?_block`: what is written as a block is read back.
-/

namespace Keyring.Yaml.Block

open ScalarWriter (keepsBreaks endsInBreak blockLines canBeBlock isPrintable)

variable {s tail rest body : List Char} {c b : Char} {p : Position} {st : State}
  {indent floor columns n : Nat} {inLine : Bool}

/-! ### What was read -/

/-- All that was read, the last character first. -/
def State.all (st : State) : List Char := st.trailing ++ st.leading ++ st.text

/-- A break in a line ends it; in a line no break waits. -/
def State.Fits (st : State) (inLine : Bool) : Prop :=
  inLine = true → st.leading = [] ∧ st.trailing = []

theorem State.all_of_fits (h : st.Fits true) : st.all = st.text := by
  obtain ⟨hleading, htrailing⟩ := h rfl
  rw [all, hleading, htrailing]
  rfl

/-! ### One character -/

theorem readLines_inLine (hbreak : isBreak c = false) :
    readLines true indent st true p (c :: rest) =
      readLines true indent { st with text := c :: st.text } true p.next rest := by
  rw [readLines, hbreak]
  rfl

theorem readLines_endLine (hbreak : isBreak c = true) :
    readLines true indent st true p (c :: rest) =
      readLines true indent { st with leading := [c] } false p.nextLine rest := by
  rw [readLines, hbreak]
  rfl

theorem readLines_emptyLine (hbreak : isBreak c = true) :
    readLines true indent st false p (c :: rest) =
      readLines true indent { st with trailing := c :: st.trailing } false p.nextLine rest := by
  have hspace : c ≠ ' ' := by rintro rfl; cases hbreak
  have htab : c ≠ '\t' := by rintro rfl; cases hbreak
  rw [readLines]
  simp [hbreak, hspace, htab]

/-- The first character of a line joins the breaks before it to the text. -/
theorem readLines_beginLine (hbreak : isBreak c = false) (hplace : p.column = indent) :
    readLines true indent st false p (c :: rest) =
      readLines true indent ⟨c :: st.all, [], [], isBlank c⟩ true p.next rest := by
  rw [readLines]
  simp [hbreak, hplace, State.beginLine, State.all]

/-- The indentation of a line does not count. -/
theorem readLines_spaces (hplace : p.column + n ≤ indent) :
    readLines true indent st false p (List.replicate n ' ' ++ rest) =
      readLines true indent st false (p.skip n) rest := by
  induction n generalizing p with
  | zero => rfl
  | succ n ih =>
    have hcolumn : p.column < indent := by omega
    have hnext : p.next.column + n ≤ indent := by
      rw [Position.next_eq, Position.column_skip]
      omega
    rw [List.replicate_succ, List.cons_append, readLines]
    simp only [Bool.false_eq_true, if_false, hcolumn, decide_true, Bool.and_self, if_true]
    rw [ih hnext, Position.next_eq, Position.skip_skip, Nat.add_comm]

/-- A block ends before a line that is not indented as its lines are. -/
theorem readLines_end (hplace : p.column + columns < indent) (hrest : BeginsVisibly rest) :
    readLines true indent st false p (List.replicate columns ' ' ++ rest) =
      some (st, ⟨rest, p.skip columns⟩) := by
  rw [readLines_spaces (by omega)]
  cases rest with
  | nil => rfl
  | cons c rest =>
    obtain ⟨hbreak, hblank, -⟩ := hrest c rfl
    have hspace : c ≠ ' ' := by rintro rfl; cases hblank
    have htab : c ≠ '\t' := by rintro rfl; cases hblank
    have hcolumn : p.column + columns ≠ indent := by omega
    rw [readLines]
    simp [hbreak, hspace, htab, hcolumn]

/-! ### Whole lines -/

/-- Whether a line has begun at the end of a text. -/
def lineAfter (inLine : Bool) : List Char → Bool
  | [] => inLine
  | c :: rest => lineAfter (!isBreak c) rest

theorem lineAfter_concat (inLine : Bool) (s : List Char) (c : Char) :
    lineAfter inLine (s ++ [c]) = !isBreak c := by
  induction s generalizing inLine with
  | nil => rfl
  | cons d s ih => exact ih _

theorem blockLines_cons (indent : Nat) (lineStart : Bool) (c : Char) (s : List Char) :
    blockLines indent lineStart (c :: s) =
      blockLines indent lineStart [c] ++ blockLines indent (isBreak c) s := by
  simp only [blockLines]
  cases isBreak c <;> simp

/-- One character is read back. -/
theorem exists_readLines_char (indent : Nat) (hfits : st.Fits inLine)
    (hplace : inLine = false → p.column = 0) (c : Char) (tail : List Char) : ∃ st' p',
      readLines true indent st inLine p (blockLines indent (!inLine) [c] ++ tail) =
        readLines true indent st' (!isBreak c) p' tail ∧
      st'.all = c :: st.all ∧ st'.Fits (!isBreak c) ∧ ((!isBreak c) = false → p'.column = 0) := by
  cases hbreak : isBreak c with
  | true =>
    have hwritten : blockLines indent (!inLine) [c] ++ tail = c :: tail := by
      simp [blockLines, hbreak]
    rw [hwritten]
    cases inLine with
    | true =>
      refine ⟨{ st with leading := [c] }, p.nextLine, readLines_endLine hbreak, ?_, nofun,
        fun _ => rfl⟩
      rw [State.all_of_fits hfits, State.all, (hfits rfl).2]
      rfl
    | false =>
      exact ⟨{ st with trailing := c :: st.trailing }, p.nextLine, readLines_emptyLine hbreak, rfl,
        nofun, fun _ => rfl⟩
  | false =>
    cases inLine with
    | true =>
      refine ⟨{ st with text := c :: st.text }, p.next, ?_, ?_, fun _ => hfits rfl, nofun⟩
      · simpa [blockLines, hbreak] using readLines_inLine hbreak
      · rw [State.all_of_fits hfits, State.all, (hfits rfl).1, (hfits rfl).2]
        rfl
    | false =>
      have hcolumn : p.column = 0 := hplace rfl
      refine ⟨⟨c :: st.all, [], [], isBlank c⟩, (p.skip indent).next, ?_, rfl, fun _ => ⟨rfl, rfl⟩,
        nofun⟩
      -- the line is indented before it begins
      have hspaces : readLines true indent st false p (List.replicate indent ' ' ++ c :: tail) =
          readLines true indent st false (p.skip indent) (c :: tail) := readLines_spaces (by omega)
      have hbegins : readLines true indent st false (p.skip indent) (c :: tail) =
          readLines true indent ⟨c :: st.all, [], [], isBlank c⟩ true (p.skip indent).next tail :=
        readLines_beginLine hbreak (by rw [Position.column_skip]; omega)
      simpa [blockLines, hbreak] using hspaces.trans hbegins

/-- The lines of a text are read back, after anything else. -/
theorem exists_readLines_lines (indent : Nat) (hfits : st.Fits inLine)
    (hplace : inLine = false → p.column = 0) (s tail : List Char) : ∃ st' p',
      readLines true indent st inLine p (blockLines indent (!inLine) s ++ tail) =
        readLines true indent st' (lineAfter inLine s) p' tail ∧
      st'.all = s.reverse ++ st.all ∧ st'.Fits (lineAfter inLine s) ∧
      (lineAfter inLine s = false → p'.column = 0) := by
  induction s generalizing st inLine p with
  | nil => exact ⟨st, p, rfl, rfl, hfits, hplace⟩
  | cons c s ih =>
    obtain ⟨st', p', hread, hall, hfits', hplace'⟩ :=
      exists_readLines_char indent hfits hplace c (blockLines indent (isBreak c) s ++ tail)
    obtain ⟨st'', p'', hread', hall', hfits'', hplace''⟩ := ih hfits' hplace'
    refine ⟨st'', p'', ?_, ?_, hfits'', hplace''⟩
    · rw [Bool.not_not] at hread'
      rw [blockLines_cons, List.append_assoc, hread, hread', lineAfter]
    · rw [hall', hall, List.reverse_cons, List.append_assoc]
      rfl

/-! ### A whole text -/

/-- What becomes of the breaks at the end of a text in its block. -/
def chompingOf (s : List Char) : Chomping :=
  if keepsBreaks s then .keep else if endsInBreak s then .clip else .strip

/-- What is written after the lines of a text: a break if it ends in none. -/
def ending (s : List Char) : List Char := if endsInBreak s then [] else ['\n']

theorem blockLines_concat (indent : Nat) (lineStart : Bool) (s : List Char)
    (hbreak : isBreak b = true) :
    blockLines indent lineStart (s ++ [b]) = blockLines indent lineStart s ++ [b] := by
  induction s generalizing lineStart with
  | nil => simp [blockLines, hbreak]
  | cons c s ih =>
    rw [List.cons_append, blockLines_cons, ih, blockLines_cons _ _ c s, List.append_assoc]

theorem fits_start : (State.start []).Fits false := nofun

/-- A line and the break that ends it. -/
theorem exists_readLines_ended (indent : Nat) (hlast : lineAfter false s = true)
    (hbreak : isBreak b = true) (hplace : p.column = 0) (tail : List Char) : ∃ st' p',
      readLines true indent (.start []) false p (blockLines indent true s ++ b :: tail) =
        readLines true indent st' false p' tail ∧
      st'.text = s.reverse ∧ st'.leading = [b] ∧ p'.column = 0 := by
  obtain ⟨st, q, hread, hall, hfits, -⟩ :=
    exists_readLines_lines indent fits_start (fun _ => hplace) s (b :: tail)
  rw [hlast] at hread hfits
  rw [State.all_of_fits hfits] at hall
  refine ⟨{ st with leading := [b] }, q.nextLine, ?_, ?_, rfl, rfl⟩
  · rw [← readLines_endLine hbreak]
    exact hread
  · exact hall.trans (List.append_nil _)

theorem endsInBreak_concat (front : List Char) (b : Char) :
    endsInBreak (front ++ [b]) = isBreak b := by
  simp [endsInBreak]

/-- All breaks at the end are kept if the last one ends no line. -/
theorem keepsBreaks_concat (front : List Char) (b : Char) :
    keepsBreaks (front ++ [b]) = (isBreak b && !lineAfter false front) := by
  rcases List.eq_nil_or_concat front with rfl | ⟨front, a, rfl⟩
  · simp [keepsBreaks, lineAfter]
  · simp [keepsBreaks, lineAfter_concat]

/-- A whole text, with the break that ends its last line, is read back by its chomping. -/
theorem exists_readLines_block (indent : Nat) (hplace : p.column = 0) (hne : s ≠ [])
    (tail : List Char) : ∃ st' p',
    readLines true indent (.start []) false p (blockLines indent true s ++ (ending s ++ tail)) =
      readLines true indent st' false p' tail ∧
    st'.finish (chompingOf s) = s ∧ p'.column = 0 := by
  obtain ⟨front, b, hs⟩ := (List.eq_nil_or_concat s).resolve_left hne
  rw [List.concat_eq_append] at hs
  subst hs
  rw [ending, chompingOf, endsInBreak_concat, keepsBreaks_concat]
  cases hbreak : isBreak b with
  | false =>
    -- the break that is added is dropped again
    obtain ⟨st, q, hread, htext, -, hq⟩ := exists_readLines_ended indent (b := '\n')
      ((lineAfter_concat false front b).trans (congrArg Bool.not hbreak)) (by decide) hplace tail
    exact ⟨st, q, hread, by simp [State.finish, htext], hq⟩
  | true =>
    cases hlast : lineAfter false front with
    | true =>
      obtain ⟨st, q, hread, htext, hleading, hq⟩ :=
        exists_readLines_ended indent hlast hbreak hplace tail
      refine ⟨st, q, ?_, by simp [State.finish, htext, hleading], hq⟩
      rw [blockLines_concat indent true front hbreak, List.append_assoc]
      exact hread
    | false =>
      obtain ⟨st, q, hread, hall, -, hq⟩ :=
        exists_readLines_lines indent fits_start (fun _ => hplace) (front ++ [b]) tail
      have hline : lineAfter false (front ++ [b]) = false := by rw [lineAfter_concat, hbreak]; rfl
      rw [hline] at hread hq
      refine ⟨st, q, hread, ?_, hq rfl⟩
      show st.all.reverse = _
      rw [hall, State.start, State.all]
      simp

/-! ### The header -/

/-- Whether the header gives the indentation, which the first line does not show. -/
def isHinted (s : List Char) : Bool := s.head?.any fun c => c = ' ' || isBreak c

/-- What is written between the mark of a block and the end of its line. -/
def headerText (s : List Char) : List Char :=
  (if isHinted s then ['2'] else []) ++
    (if keepsBreaks s then ['+'] else if endsInBreak s then [] else ['-'])

theorem exists_header? (s body : List Char) (p : Position) : ∃ q,
    header? ⟨headerText s ++ '\n' :: body, p⟩ =
      some (⟨chompingOf s, if isHinted s then some 2 else none⟩, ⟨'\n' :: body, q⟩) := by
  rw [headerText, chompingOf]
  cases isHinted s <;> cases keepsBreaks s <;> cases endsInBreak s <;> exact ⟨_, rfl⟩

theorem endLine?_feed (body : List Char) (p : Position) :
    Cursor.endLine? ⟨'\n' :: body, p⟩ = some ⟨body, p.nextLine⟩ := by
  simp [Cursor.endLine?, Cursor.skipBlanks, Cursor.skipWhile, Cursor.skip, Cursor.skipComment,
    atBreak, Cursor.skipBreak, isBlank, isBreak]

/-- The first line shows the indentation, unless it is empty or begins with a space. -/
theorem findIndent_spaces (hc : c ≠ ' ') (htab : c ≠ '\t') (hbreak : isBreak c = false) (n : Nat)
    (p : Position) : findIndent [] 0 p (List.replicate n ' ' ++ c :: rest) =
      some ([], p.column + n, ⟨c :: rest, p.skip n⟩) := by
  induction n generalizing p with
  | zero => simp [findIndent, hc, htab, hbreak]
  | succ n ih =>
    rw [List.replicate_succ, List.cons_append, findIndent, if_pos rfl, ih, Position.next_eq,
      Position.skip_skip, Position.column_skip, Nat.add_comm n 1, Nat.add_assoc]

/-- **Blocks.** What is written as a block, indented by one more column than the reader asks for, is
read back. -/
theorem exists_read?_block (h : canBeBlock s = true) (hfloor : 0 < floor)
    (hcolumns : columns ≤ floor)
    (hrest : BeginsVisibly rest) (p : Position) : ∃ q : Position, q.column = 0 ∧
      read? true floor ⟨headerText s ++ '\n' :: (blockLines (floor + 1) true s ++
          (ending s ++ (List.replicate columns ' ' ++ rest))), p⟩ =
            some (s, ⟨rest, q.skip columns⟩) := by
  simp only [canBeBlock, Bool.not_eq_true', Bool.or_eq_false_iff] at h
  obtain ⟨⟨⟨hempty, hspecial⟩, -⟩, -⟩ := h
  have hne : s ≠ [] := by rintro rfl; cases hempty
  obtain ⟨q, hheader⟩ := exists_header? s (blockLines (floor + 1) true s ++
    (ending s ++ (List.replicate columns ' ' ++ rest))) p
  obtain ⟨st, r, hread, hfinish, hr⟩ := exists_readLines_block (floor + 1) q.column_nextLine hne
    (List.replicate columns ' ' ++ rest)
  have hend : readLines true (floor + 1) st false r (List.replicate columns ' ' ++ rest) =
      some (st, ⟨rest, r.skip columns⟩) := readLines_end (by omega) hrest
  refine ⟨r, hr, ?_⟩
  rw [read?, hheader]
  simp only [Option.bind_eq_bind, Option.bind_some, endLine?_feed]
  -- without a hint the first line has to show the indentation
  cases hhint : isHinted s with
  | true =>
    have hindent : floor - 1 + 2 = floor + 1 := by omega
    simp only [if_true, hindent, hread, hend, Option.bind_some, hfinish]
    rfl
  | false =>
    obtain ⟨c, more, rfl⟩ := List.exists_cons_of_ne_nil hne
    have hshows : c ≠ ' ' ∧ isBreak c = false := by simpa [isHinted] using hhint
    have htab : c ≠ '\t' := by
      rintro rfl
      simp [ScalarWriter.hasSpecial, isPrintable] at hspecial
    have hlines : blockLines (floor + 1) true (c :: more) =
        List.replicate (floor + 1) ' ' ++ c :: blockLines (floor + 1) false more := by
      simp [blockLines, hshows.2]
    have hindent : max (max (q.nextLine.column + (floor + 1)) floor) 1 = floor + 1 := by
      rw [Position.column_nextLine]
      omega
    rw [hlines, List.append_assoc, List.cons_append] at hread ⊢
    rw [readLines_spaces (by rw [Position.column_nextLine]; omega)] at hread
    simp only [Bool.false_eq_true, if_false, findIndent_spaces hshows.1 htab hshows.2,
      Option.bind_some, hindent, hread, hend, hfinish]
    rfl

end Keyring.Yaml.Block
