import Keyring.Proofs.Yaml.Plain
import Keyring.Proofs.Yaml.Printable
import Keyring.Yaml.Token.Lexer

/-!
# One line after the other

A lexer that stands before a member of a mapping takes three tokens: its key, the colon, and its
value. What it then stands before is the next line, which says by its indentation which mappings
have ended.

- `Leads`: what a lexer comes to by a number of tokens;
- `leads_key`, `leads_firstKey`: a key, in a mapping that is open or that begins with it;
- `Shows`, `shows_plain`, `shows_line`: the lines that a scalar is read of, where it is a value.
-/

namespace Keyring.Yaml.Lexer

open ScalarWriter (canBePlain canBeSingle canBeBlock isPrintable)

variable {l l' l'' : Lexer} {m n : Nat} {c : Char} {s text rest tail next name : List Char}
  {p q : Position} {tokens : List Token} {floor columns : Nat} {floors : List Nat}
  {keyAllowed : Bool}

/-! ### Leading on -/

/-- A lexer comes to another one by a number of tokens. -/
def Leads (n : Nat) (l l' : Lexer) : Prop := ∀ fuel, l.run (fuel + n) = l'.run fuel

namespace Leads

theorem trans (h : Leads m l l') (h' : Leads n l' l'') : Leads (m + n) l l'' := by
  intro fuel
  rw [Nat.add_comm m n, ← Nat.add_assoc, h, h']

/-- Lexers that go to the same next token take the same tokens. -/
theorem of_approach (h : l.approach = l'.approach) : Leads 0 l l' := by
  intro fuel
  cases fuel with
  | zero => rfl
  | succ fuel =>
    rw [Nat.add_zero, run, run, h]

theorem of_take? (hrest : l.approach.cursor.rest = c :: rest)
    (htake : l.approach.take? c rest = some l') : Leads 1 l l' := by
  intro fuel
  rw [run]
  simp only [hrest, htake, Option.bind_some]

end Leads

/-! ### The next token -/

/-- A lexer outside of flow collections in which nothing may turn out to be a key. -/
def between (keyAllowed : Bool) (text : List Char) (p : Position) (tokens : List Token)
    (floor : Nat) (floors : List Nat) : Lexer :=
  ⟨⟨text, p⟩, tokens, floor, floors, keyAllowed, [none]⟩

theorem skipSpace_visible (h : BeginsVisibly rest) (flow keyAllowed : Bool) (p : Position) :
    skipSpace flow keyAllowed false p rest = (keyAllowed, ⟨rest, p⟩) := by
  cases rest with
  | nil => rfl
  | cons c rest =>
    obtain ⟨hbreak, hblank, hnumber, hmark⟩ := h c rfl
    have hspace : c ≠ ' ' := by rintro rfl; cases hblank
    have htab : c ≠ '\t' := by rintro rfl; cases hblank
    rw [skipSpace]
    simp [hbreak, hnumber, hmark, hspace, htab]

theorem skipSpace_spaces (flow keyAllowed : Bool) (p : Position) (n : Nat) (rest : List Char) :
    skipSpace flow keyAllowed false p (List.replicate n ' ' ++ rest) =
      skipSpace flow keyAllowed false (p.skip n) rest := by
  induction n generalizing p with
  | zero => rfl
  | succ n ih =>
    have hbreak : isBreak ' ' = false := by decide
    rw [List.replicate_succ, List.cons_append, skipSpace, hbreak]
    simp only [Bool.false_eq_true, if_false, Bool.false_or, decide_true, Bool.true_or, if_true,
      show (' ' = '#') = False by simp, decide_false]
    rw [ih, Position.next_eq, Position.skip_skip, Nat.add_comm]

theorem unroll_of_le (h : l.floor ≤ floor) : l.unroll floor = l := by
  have hclose : closeBlocks floor l l.floors = l := by
    obtain ⟨cursor, tokens, f, floors, keyAllowed, candidates⟩ := l
    cases floors with
    | nil => rfl
    | cons outer floors =>
      rw [closeBlocks]
      exact if_neg (Nat.not_lt.2 h)
  rw [unroll, hclose, ite_self]

/-- Spaces before a token tell its column. -/
theorem approach_spaces (h : BeginsVisibly rest) (keyAllowed : Bool) (n : Nat) (p : Position)
    (tokens : List Token) (floor : Nat) (floors : List Nat) :
    (between keyAllowed (List.replicate n ' ' ++ rest) p tokens floor floors).approach =
      (between keyAllowed rest (p.skip n) tokens floor floors).unroll (p.column + n + 1) := by
  rw [approach]
  simp only [between, inFlow, skipSpace_spaces, skipSpace_visible h]
  rfl

theorem approach_feed (h : BeginsVisibly rest) (keyAllowed : Bool) (n : Nat) (p : Position)
    (tokens : List Token) (floor : Nat) (floors : List Nat) :
    (between keyAllowed ('\n' :: (List.replicate n ' ' ++ rest)) p tokens floor floors).approach =
      (between true rest (p.nextLine.skip n) tokens floor floors).unroll (n + 1) := by
  have hbreak : isBreak '\n' = true := by decide
  rw [approach]
  simp only [between, inFlow, skipSpace, hbreak, if_true, skipSpace_spaces, skipSpace_visible h]
  simp

/-! ### Plain texts -/

/-- The indicators that no text begins with that can be plain. -/
def marks : List Char := "#,[]\x7b\x7d&*!|>'\"%@`".toList

/-- What a text that can be plain begins with. -/
theorem head_of_canBePlain (h : canBePlain (c :: s) = true) :
    isBreak c = false ∧ isBlank c = false ∧ isPrintable c = true ∧
      marks.contains c = false ∧
      ((c = '?' || c = ':' || c = '-') && atSpace s) = false := by
  simp only [canBePlain, Bool.not_eq_true', Bool.or_eq_false_iff, decide_eq_false_iff_not,
    ScalarWriter.hasIndicatorAtStart] at h
  obtain ⟨⟨⟨⟨⟨⟨hspecial, hline⟩, hspace⟩, -⟩, -⟩, ⟨hmarks, hindicator⟩⟩, -⟩ := h
  have hprintable : isPrintable c = true := by
    simpa using List.any_eq_false.1 hspecial c List.mem_cons_self
  have hbreak : isBreak c = false := by
    simpa using List.any_eq_false.1 hline c List.mem_cons_self
  refine ⟨hbreak, ?_, hprintable, hmarks, hindicator⟩
  rw [Bool.eq_false_iff]
  intro hblank
  exact hspace (congrArg some (eq_space_of_isBlank hprintable hblank))

theorem beginsVisibly_of_canBePlain (h : canBePlain s = true) (hne : s ≠ []) (tail : List Char) :
    BeginsVisibly (s ++ tail) := by
  obtain ⟨c, s, rfl⟩ := List.exists_cons_of_ne_nil hne
  obtain ⟨hbreak, hblank, hprintable, hmarks, -⟩ := head_of_canBePlain h
  rintro d ⟨⟩
  refine ⟨hbreak, hblank, ?_, ne_of_isPrintable hprintable (by decide)⟩
  rintro rfl
  cases hmarks

theorem not_atMarker_of_isAlpha (h : c.isAlpha = true) (rest : List Char) :
    atStartMarker (c :: rest) = false ∧ atEndMarker (c :: rest) = false := by
  have hhyphen : c ≠ '-' := by rintro rfl; cases h
  have hdot : c ≠ '.' := by rintro rfl; cases h
  constructor
  · unfold atStartMarker
    split
    case h_1 heq => exact absurd (List.cons.inj heq).1 hhyphen
    case h_2 => rfl
  · unfold atEndMarker
    split
    case h_1 heq => exact absurd (List.cons.inj heq).1 hdot
    case h_2 => rfl

/-- A plain scalar may begin with any other visible character, and with some indicators before no
space. -/
theorem beginsPlain_of_not_mark (hblank : isBlank c = false)
    (hmarks : marks.contains c = false)
    (hends : ((c = '?' || c = ':' || c = '-') && atSpace rest) = false) :
    beginsPlain false c rest = true := by
  by_cases hindicator : (c = '?' ∨ c = ':') ∨ c = '-'
  case pos =>
    have hspace : atSpace rest = false := by
      simp only [Bool.and_eq_false_imp, Bool.or_eq_true, decide_eq_true_eq] at hends
      exact hends hindicator
    have hblank' : rest.head?.any isBlank = false := by
      cases rest with
      | nil => rfl
      | cons d rest => exact (Bool.or_eq_false_iff.1 hspace).1
    rcases hindicator with (rfl | rfl) | rfl
    · simp [beginsPlain, hspace]
    · simp [beginsPlain, hspace]
    · simp [beginsPlain, hblank']
  case neg =>
    have hindicators : "-?:,[]\x7b\x7d#&*!|>'\"%@`".toList.all (fun d =>
        decide ((d = '?' ∨ d = ':') ∨ d = '-') || marks.contains d) = true := by decide
    have hnot : isIndicator c = false := by
      rw [Bool.eq_false_iff]
      intro hmem
      have hc := List.all_eq_true.1 hindicators c (List.contains_iff_mem.1 hmem)
      rw [hmarks, Bool.or_false] at hc
      exact hindicator (of_decide_eq_true hc)
    simp [beginsPlain, hnot, hblank]

/-- A plain scalar is taken where a text begins that can be plain, if it does not look like a mark
between documents. -/
theorem take?_of_canBePlain (h : canBePlain (c :: s) = true) (hflow : l.inFlow = false)
    (hplace : 0 < l.cursor.position.column ∨ c.isAlpha = true) (tail : List Char) :
    l.take? c (s ++ tail) = l.takePlain? := by
  obtain ⟨-, hblank, -, hmarks, hindicator⟩ := head_of_canBePlain h
  have hends : ((c = '?' || c = ':' || c = '-') && atSpace (s ++ tail)) = false := by
    cases hspace : atSpace s with
    | true =>
      rw [hspace, Bool.and_true] at hindicator
      rw [hindicator, Bool.false_and]
    | false => rw [Plain.atSpace_append hspace, Bool.and_false]
  have hstart : (l.cursor.position.column = 0 && atStartMarker (c :: (s ++ tail))) = false := by
    rcases hplace with hcolumn | halpha
    · simp [Nat.pos_iff_ne_zero.1 hcolumn]
    · rw [(not_atMarker_of_isAlpha halpha _).1, Bool.and_false]
  have hend : (l.cursor.position.column = 0 && atEndMarker (c :: (s ++ tail))) = false := by
    rcases hplace with hcolumn | halpha
    · simp [Nat.pos_iff_ne_zero.1 hcolumn]
    · rw [(not_atMarker_of_isAlpha halpha _).2, Bool.and_false]
  -- it is none of the indicators that begin other tokens
  have hmark (d : Char) (hd : d ∈ marks) : c ≠ d := by
    rintro rfl
    rw [List.contains_iff_mem.2 hd] at hmarks
    cases hmarks
  have hplain := beginsPlain_of_not_mark hblank hmarks hends
  simp only [Bool.and_eq_false_imp, Bool.or_eq_true, decide_eq_true_eq] at hends
  have hhyphen : (c = '-' && atSpace (s ++ tail)) = false := by
    rw [Bool.and_eq_false_imp, decide_eq_true_eq]
    exact fun hc => hends (.inr hc)
  have hcolon : (c = ':' && atSpace (s ++ tail)) = false := by
    rw [Bool.and_eq_false_imp, decide_eq_true_eq]
    exact fun hc => hends (.inl (.inr hc))
  have hquestion : (c = '?' && atSpace (s ++ tail)) = false := by
    rw [Bool.and_eq_false_imp, decide_eq_true_eq]
    exact fun hc => hends (.inl (.inl hc))
  rw [take?, hflow, hstart, hend, hplain]
  simp only [hmark '%' (by decide), hmark '[' (by decide), hmark '\x7b' (by decide),
    hmark ']' (by decide), hmark '\x7d' (by decide), hmark ',' (by decide), hmark '*' (by decide),
    hmark '&' (by decide), hmark '!' (by decide), hmark '|' (by decide), hmark '>' (by decide),
    hmark '\'' (by decide), hmark '"' (by decide), hhyphen, hcolon, hquestion, decide_false,
    Bool.and_false, Bool.false_and, Bool.false_or, Bool.false_eq_true, if_false, if_true]

/-! ### Keys -/

/-- The names that are read as keys wherever one may begin. -/
def isKey (name : List Char) : Bool :=
  canBePlain name && name.length ≤ keyReach && name.head?.any Char.isAlpha

/-- The key of a mapping, before the colon that it is known by. -/
def keyOf (name : List Char) : Token := .scalar ⟨.plain, name⟩

theorem insert_append (l : Lexer) (front tokens : List Token) (token : Token)
    (h : l.tokens = front ++ tokens) :
    l.insert tokens.length token = { l with tokens := front ++ token :: tokens } := by
  have hlater : l.tokens.length - tokens.length = front.length := by
    rw [h, List.length_append]
    omega
  rw [insert, hlater, h, List.take_left, List.drop_left]

theorem markCandidate?_true : (between true text p tokens floor floors).markCandidate? =
    some ⟨⟨text, p⟩, tokens, floor, floors, true,
      [some ⟨floor = p.column + 1, tokens.length, p⟩]⟩ :=
  rfl

theorem markCandidate?_false : (between false text p tokens floor floors).markCandidate? =
    some (between false text p tokens floor floors) :=
  rfl

/-- The text of a key is taken as what may turn out to be a key. -/
theorem leads_name (h : isKey name = true) (htail : atSpace tail = true) (hp : p.column = 0)
    (hfloor : floor ≤ columns + 1) (tokens : List Token) (floors : List Nat) : ∃ required,
      Leads 1
        (between true (List.replicate columns ' ' ++ (name ++ ':' :: tail)) p tokens floor floors)
        ⟨⟨':' :: tail, p.skip (columns + name.length)⟩, keyOf name :: tokens, floor, floors, false,
          [some ⟨required, tokens.length, p.skip columns⟩]⟩ := by
  simp only [isKey, Bool.and_eq_true, decide_eq_true_eq] at h
  obtain ⟨⟨hplain, -⟩, halpha⟩ := h
  have hne : name ≠ [] := by rintro rfl; cases halpha
  have hplace : floor ≤ (p.skip columns).column + 1 := by
    rw [Position.column_skip, hp]
    omega
  have happroach :=
    approach_spaces (beginsVisibly_of_canBePlain hplain hne (':' :: tail)) true columns p
    tokens floor floors
  rw [hp, Nat.zero_add, unroll_of_le hfloor] at happroach
  have hread : Plain.read? false floor ⟨name ++ ':' :: tail, p.skip columns⟩ =
      some ⟨name, ⟨':' :: tail, p.skip (columns + name.length)⟩, false⟩ := by
    rw [Plain.read?_eq hplain hne hplace, Plain.readFrom_colon htail, List.reverse_reverse,
      Position.skip_skip]
  obtain ⟨c, more, rfl⟩ := List.exists_cons_of_ne_nil hne
  have hnext : (between true (List.replicate columns ' ' ++ (c :: more ++ ':' :: tail)) p tokens
      floor floors).approach.cursor.rest = c :: (more ++ ':' :: tail) :=
    congrArg (·.cursor.rest) happroach
  refine ⟨decide (floor = (p.skip columns).column + 1), Leads.of_take? hnext ?_⟩
  rw [happroach, take?_of_canBePlain hplain rfl (.inr (by simpa using halpha)), takePlain?,
    markCandidate?_true]
  simp only [Option.bind_eq_bind, Option.bind_some, inFlow, List.length_singleton, Nat.lt_irrefl,
    decide_false, hread]
  rfl

/-- The colon after a name makes it a key, and begins a mapping where none is open. -/
theorem leads_colon (h : isKey name = true) (htail : atSpace tail = true) (hp : p.column = 0)
    (hfloor : floor ≤ columns + 1) (tokens : List Token) (floors : List Nat) (required : Bool) :
    Leads 1 ⟨⟨':' :: tail, p.skip (columns + name.length)⟩, keyOf name :: tokens, floor, floors,
      false,
        [some ⟨required, tokens.length, p.skip columns⟩]⟩
      (if columns < floor then
        between false tail (p.skip (columns + name.length + 1))
          (.value :: keyOf name :: .key :: tokens)
          floor floors
      else
        between false tail (p.skip (columns + name.length + 1))
          (.value :: keyOf name :: .key :: .blockMappingStart :: tokens) (columns + 1)
          (floor :: floors)) := by
  simp only [isKey, Bool.and_eq_true, decide_eq_true_eq] at h
  obtain ⟨⟨-, hreach⟩, halpha⟩ := h
  generalize hl : (⟨⟨':' :: tail, p.skip (columns + name.length)⟩, keyOf name :: tokens, floor,
    floors, false, [some ⟨required, tokens.length, p.skip columns⟩]⟩ : Lexer) = l
  have hvisible : BeginsVisibly (':' :: tail) := by
    rintro d ⟨⟩
    decide
  have happroach : l.approach = l := by
    subst hl
    rw [approach]
    simp only [skipSpace_visible hvisible]
    exact unroll_of_le (by simp only [Position.column_skip, hp]; omega)
  have hcolumn : l.cursor.position.column ≠ 0 := by
    subst hl
    cases name with
    | nil => cases halpha
    | cons c name => exact Nat.succ_ne_zero _
  have htake : l.take? ':' tail = l.takeColon? := by
    simp [take?, hcolumn, htail]
  -- the name is short and has no break, so the colon is still in reach of it
  have hinReach :
      inReach ⟨required, tokens.length, p.skip columns⟩ (p.skip (columns + name.length)) =
      true := by
    have hindex : p.index + (columns + name.length) ≤ p.index + columns + keyReach := by omega
    simp [inReach, Position.skip, hindex]
  have hnext : l.approach.cursor.rest = ':' :: tail := by rw [happroach, ← hl]
  apply Leads.of_take? hnext
  rw [happroach, htake]
  subst hl
  rw [takeColon?]
  simp only [hinReach, if_true]
  rw [insert_append _ [keyOf name] tokens .key rfl, roll]
  simp only [inFlow, List.length_singleton, Nat.lt_irrefl, decide_false, Bool.false_or,
    decide_eq_true_eq]
  have hcolumns : (p.skip columns).column = columns := by
    rw [Position.column_skip, hp, Nat.zero_add]
  rw [hcolumns]
  split
  · rfl
  · rw [insert_append _ [keyOf name, .key] tokens .blockMappingStart rfl]
    rfl

/-- A key in a mapping that is open. -/
theorem leads_key (h : isKey name = true) (htail : atSpace tail = true) (hp : p.column = 0)
    (tokens : List Token) (floors : List Nat) :
    Leads 2
      (between true (List.replicate columns ' ' ++ (name ++ ':' :: tail)) p tokens (columns + 1)
        floors)
      (between false tail (p.skip (columns + name.length + 1))
        (.value :: keyOf name :: .key :: tokens) (columns + 1) floors) := by
  have hle : columns + 1 ≤ columns + 1 := Nat.le_refl _
  obtain ⟨required, hname⟩ := leads_name h htail hp hle tokens floors
  have hcolon := leads_colon h htail hp hle tokens floors required
  rw [if_pos (Nat.lt_succ_self columns)] at hcolon
  exact hname.trans hcolon

/-- A key with which a mapping begins. -/
theorem leads_firstKey (h : isKey name = true) (htail : atSpace tail = true) (hp : p.column = 0)
    (hfloor : floor ≤ columns) (tokens : List Token) (floors : List Nat) :
    Leads 2
      (between true (List.replicate columns ' ' ++ (name ++ ':' :: tail)) p tokens floor floors)
      (between false tail (p.skip (columns + name.length + 1))
        (.value :: keyOf name :: .key :: .blockMappingStart :: tokens) (columns + 1)
        (floor :: floors)) := by
  have hle : floor ≤ columns + 1 := Nat.le_succ_of_le hfloor
  obtain ⟨required, hname⟩ := leads_name h htail hp hle tokens floors
  have hcolon := leads_colon h htail hp hle tokens floors required
  rw [if_neg (Nat.not_lt.2 hfloor)] at hcolon
  exact hname.trans hcolon

/-! ### Values -/

/-- A line that is indented by fewer columns than a value asks for. -/
def BeginsBefore (floor : Nat) (next : List Char) : Prop :=
  ∃ columns rest, columns < floor ∧ BeginsVisibly rest ∧ next = List.replicate columns ' ' ++ rest

/-- The lines that a scalar is read of where a value is expected, whatever stands on the next
line. -/
def Shows (floor : Nat) (line : List Char) (scalar : Scalar) : Prop :=
  ∀ next p tokens floors, floor ≤ p.column → BeginsBefore floor next →
    ∃ q : Position, q.column = 0 ∧
    Leads 1 (between false (' ' :: (line ++ next)) p tokens floor floors)
      (between true next q (.scalar scalar :: tokens) floor floors)

/-- A value begins after the space behind the colon. -/
theorem approach_value (h : BeginsVisibly text) (hplace : floor ≤ p.column) (tokens : List Token)
    (floors : List Nat) :
    (between false (' ' :: text) p tokens floor floors).approach =
      between false text (p.skip 1) tokens floor floors := by
  have happroach := approach_spaces h false 1 p tokens floor floors
  rw [unroll_of_le (show floor ≤ p.column + 1 + 1 by omega)] at happroach
  exact happroach

/-- The indentation of a line may be read with the value before it. -/
theorem leads_back (h : BeginsVisibly rest) (hq : q.column = 0) (keyAllowed : Bool) (columns : Nat)
    (tokens : List Token) (floor : Nat) (floors : List Nat) :
    Leads 0 (between keyAllowed rest (q.skip columns) tokens floor floors)
      (between keyAllowed (List.replicate columns ' ' ++ rest) q tokens floor floors) := by
  apply Leads.of_approach
  have hrest := approach_spaces h keyAllowed 0 (q.skip columns) tokens floor floors
  rw [approach_spaces h, hq, Nat.zero_add]
  rw [Position.column_skip, hq, Nat.zero_add] at hrest
  exact hrest

theorem leads_feed (h : BeginsVisibly rest) (keyAllowed : Bool) (columns : Nat) (q : Position)
    (tokens : List Token) (floor : Nat) (floors : List Nat) :
    Leads 0
      (between keyAllowed ('\n' :: (List.replicate columns ' ' ++ rest)) q tokens floor floors)
      (between true (List.replicate columns ' ' ++ rest) q.nextLine tokens floor floors) := by
  apply Leads.of_approach
  rw [approach_feed h, approach_spaces h, Position.column_nextLine, Nat.zero_add]

/-- A text that can be plain is the value of its line. -/
theorem shows_plain (h : canBePlain s = true) (hne : s ≠ []) :
    Shows floor (s ++ ['\n']) ⟨.plain, s⟩ := by
  rintro next p tokens floors hplace ⟨columns, rest, hcolumns, hrest, rfl⟩
  have hread : Plain.read? false floor
      ⟨s ++ '\n' :: (List.replicate columns ' ' ++ rest), p.skip 1⟩ =
        some ⟨s, ⟨rest, ((p.skip 1).skip s.length).nextLine.skip columns⟩, true⟩ := by
    rw [Plain.read?_eq h hne (by rw [Position.column_skip]; omega),
      Plain.readFrom_break hcolumns hrest, List.reverse_reverse]
  have happroach := approach_value
    (beginsVisibly_of_canBePlain h hne ('\n' :: (List.replicate columns ' ' ++ rest))) hplace
    tokens floors
  refine ⟨((p.skip 1).skip s.length).nextLine, rfl, ?_⟩
  rw [List.append_assoc, List.singleton_append]
  obtain ⟨c, s, rfl⟩ := List.exists_cons_of_ne_nil hne
  have hnext : (between false (' ' :: (c :: s ++ '\n' :: (List.replicate columns ' ' ++ rest))) p
      tokens floor floors).approach.cursor.rest =
        c :: (s ++ '\n' :: (List.replicate columns ' ' ++ rest)) :=
    congrArg (·.cursor.rest) happroach
  -- the reader of the scalar goes on to the next visible character, past the indentation
  refine Leads.trans (Leads.of_take? hnext ?_) (leads_back hrest rfl true columns _ floor floors)
  rw [happroach, take?_of_canBePlain h rfl (.inl (Nat.succ_pos _)), takePlain?,
    markCandidate?_false]
  simp only [between, Option.bind_eq_bind, Option.bind_some, inFlow, List.length_singleton,
    Nat.lt_irrefl, decide_false, hread]
  rfl

theorem skip_between : (between keyAllowed (c :: text) p tokens floor floors).cursor.skip 1 =
    ⟨text, p.skip 1⟩ := rfl

theorem dropCandidate?_between : (between keyAllowed text p tokens floor floors).dropCandidate? =
    some (between keyAllowed text p tokens floor floors) := rfl

theorem take?_single (hplace : 0 < l.cursor.position.column) (rest : List Char) :
    l.take? '\'' rest = l.takeQuoted? true := by
  simp [take?, Nat.pos_iff_ne_zero.1 hplace]

theorem take?_double (hplace : 0 < l.cursor.position.column) (rest : List Char) :
    l.take? '"' rest = l.takeQuoted? false := by
  simp [take?, Nat.pos_iff_ne_zero.1 hplace]

theorem take?_literal (hflow : l.inFlow = false) (hplace : 0 < l.cursor.position.column)
    (rest : List Char) : l.take? '|' rest = l.takeBlock? true := by
  simp [take?, Nat.pos_iff_ne_zero.1 hplace, hflow]

/-- A text in quotes that is read back is the value of its line. -/
theorem shows_quoted (floor : Nat) (single : Bool) (inside : List Char)
    (hread : ∀ (tail : List Char) (p : Position), 0 < p.column → tail.head? ≠ some '\'' →
      ∃ q, (if single then Quoted.single? ⟨inside ++ tail, p⟩
        else Quoted.double? ⟨inside ++ tail, p⟩) =
        some (s, ⟨tail, q⟩)) :
    Shows floor ((if single then '\'' else '"') :: (inside ++ ['\n']))
      ⟨if single then .singleQuoted else .doubleQuoted, s⟩ := by
  rintro next p tokens floors hplace ⟨columns, rest, -, hrest, rfl⟩
  obtain ⟨q, hq⟩ := hread ('\n' :: (List.replicate columns ' ' ++ rest)) ((p.skip 1).skip 1)
    (Nat.succ_pos _) (by simp)
  have hvisible : BeginsVisibly ((if single then '\'' else '"') ::
      (inside ++ '\n' :: (List.replicate columns ' ' ++ rest))) := by
    rintro d ⟨⟩
    cases single <;> decide
  have happroach := approach_value hvisible hplace tokens floors
  refine ⟨q.nextLine, rfl, ?_⟩
  rw [List.cons_append, List.append_assoc, List.singleton_append]
  have hfeed := leads_feed hrest false columns q
    (.scalar ⟨if single then .singleQuoted else .doubleQuoted, s⟩ :: tokens) floor floors
  refine Leads.trans (Leads.of_take? (congrArg (·.cursor.rest) happroach) ?_) hfeed
  have hplace' : 0 < (p.skip 1).column := Nat.succ_pos _
  rw [happroach]
  cases single with
  | true =>
    rw [if_pos rfl] at hq
    rw [if_pos rfl, take?_single hplace', takeQuoted?, markCandidate?_false]
    simp only [Option.bind_eq_bind, Option.bind_some, if_true, skip_between, hq]
    rfl
  | false =>
    rw [if_neg Bool.false_ne_true] at hq
    rw [if_neg Bool.false_ne_true, take?_double hplace', takeQuoted?, markCandidate?_false]
    simp only [Option.bind_eq_bind, Option.bind_some, Bool.false_eq_true, if_false, skip_between,
      hq]
    rfl

/-- A text that can be a block is the value of its lines. -/
theorem shows_literal (h : canBeBlock s = true) (hfloor : 0 < floor) :
    Shows floor (ScalarWriter.literal (floor + 1) s ++ Block.ending s) ⟨.literal, s⟩ := by
  rintro next p tokens floors hplace ⟨columns, rest, hcolumns, hrest, rfl⟩
  obtain ⟨q, hq, hread⟩ := Block.exists_read?_block h hfloor (Nat.le_of_lt hcolumns) hrest
    ((p.skip 1).skip 1)
  have hwritten : ScalarWriter.literal (floor + 1) s ++ Block.ending s ++
      (List.replicate columns ' ' ++ rest) = '|' :: (Block.headerText s ++ '\n' ::
        (ScalarWriter.blockLines (floor + 1) true s ++
          (Block.ending s ++ (List.replicate columns ' ' ++ rest)))) := by
    simp [ScalarWriter.literal, ScalarWriter.blockHeader, Block.headerText]
    rfl
  have hvisible : BeginsVisibly ('|' :: (Block.headerText s ++ '\n' ::
      (ScalarWriter.blockLines (floor + 1) true s ++
        (Block.ending s ++ (List.replicate columns ' ' ++ rest))))) := by
    rintro d ⟨⟩
    decide
  have happroach := approach_value hvisible hplace tokens floors
  have hback := leads_back hrest hq true columns (.scalar ⟨.literal, s⟩ :: tokens) floor floors
  refine ⟨q, hq, ?_⟩
  rw [hwritten]
  refine Leads.trans (Leads.of_take? (congrArg (·.cursor.rest) happroach) ?_) hback
  rw [happroach, take?_literal rfl (Nat.succ_pos _), takeBlock?, dropCandidate?_between]
  simp only [Option.bind_eq_bind, Option.bind_some, skip_between]
  rw [show (between false _ _ _ _ _).floor = floor from rfl, hread]
  rfl

/-- **Values.** Every text is the value of the line that it is written in. -/
theorem shows_line (hfloor : 0 < floor) (s : List Char) :
    Shows floor (ScalarWriter.line (floor + 1) s) ⟨ScalarWriter.style s, s⟩ := by
  rcases ScalarWriter.style_cases s with
    ⟨hstyle, hblock⟩ | ⟨hstyle, hplain, hne⟩ | ⟨hstyle, hsingle, hfeed⟩ | hstyle
  · rw [ScalarWriter.line, hstyle]
    exact shows_literal hblock hfloor
  · rw [ScalarWriter.line, hstyle]
    exact shows_plain hplain hne
  · rw [ScalarWriter.line, hstyle]
    refine shows_quoted floor true (ScalarWriter.singleInside (floor + 1) false s ++ ['\''])
      fun tail p hplace htail => ?_
    rw [if_pos rfl, List.append_assoc]
    exact Quoted.single?_inside hsingle hfeed (Nat.succ_pos floor) hplace htail
  · rw [ScalarWriter.line, hstyle]
    refine shows_quoted floor false (s.flatMap (fun c => if ScalarWriter.isEscaped c then
      ScalarWriter.escape c else [c]) ++ ['"']) fun tail p hplace _ => ?_
    rw [if_neg Bool.false_ne_true, List.append_assoc]
    exact Quoted.double?_inside hplace

end Keyring.Yaml.Lexer
