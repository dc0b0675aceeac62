import Keyring.Config.Show
import Keyring.Proofs.Yaml.Lexing
import Keyring.Yaml.Document

/-!
# Documents of sections

A document that is written section by section, each member on a line of its own, is read as a
mapping of these sections, which are mappings of their members: the lexer comes from each section to
the next, and the nodes follow the tokens.

- `Member`, `Section`: what is written, and the scalars that it shows;
- `leads_member`, `leads_section`: the tokens of a member and of a section;
- `ofText?_sections`: the tokens of a document;
- `parse?_sections`: the document that is read.
-/

namespace Keyring.Config

open Yaml Yaml.Lexer
open Yaml.ScalarWriter (isPrintable canBePlain)

variable {next : List Char} {p q : Position} {before : List Token}

/-- A member of a section. -/
structure Member where
  /-- Its name. -/
  name : String
  /-- What is written behind the colon, up to the end of the last line. -/
  lines : List Char
  /-- The scalar that is read there. -/
  scalar : Scalar

/-- A section. -/
structure Section where
  /-- Its name. -/
  name : String
  /-- Its members. -/
  members : List Member

namespace Member

/-- The lines of a member. -/
def text (m : Member) : List Char := "  ".toList ++ m.name.toList ++ ": ".toList ++ m.lines

/-- The tokens of a member. -/
def tokens (m : Member) : List Token :=
  [.key, keyOf m.name.toList, .value, .scalar m.scalar]

/-- A member that is read as it is meant. -/
structure Reads (m : Member) : Prop where
  /-- The name is a key. -/
  isKey : isKey m.name.toList = true
  /-- The scalar is read of the lines. -/
  shows : Shows 3 m.lines m.scalar
  /-- The lines are printable. -/
  printable : ∀ c ∈ m.lines, isPrintable c = true

end Member

namespace Section

/-- The lines of a section. -/
def text (s : Section) : List Char := s.name.toList ++ ":\n".toList ++ s.members.flatMap Member.text

/-- The tokens of a section. -/
def tokens (s : Section) : List Token :=
  [.key, keyOf s.name.toList, .value, .blockMappingStart] ++ s.members.flatMap Member.tokens ++
    [.blockEnd]

/-- A section that is read as it is meant: it has a member. -/
structure Reads (s : Section) : Prop where
  /-- The name is a key. -/
  isKey : isKey s.name.toList = true
  /-- There is a member. -/
  members_ne_nil : s.members ≠ []
  /-- The members are read as they are meant. -/
  members : ∀ m ∈ s.members, m.Reads

end Section

/-! ### Tokens -/

theorem beginsVisibly_of_isKey {name : List Char} (h : isKey name = true) (tail : List Char) :
    BeginsVisibly (name ++ tail) := by
  simp only [isKey, Bool.and_eq_true] at h
  refine beginsVisibly_of_canBePlain h.1.1 ?_ tail
  rintro rfl
  cases h.2

theorem beginsBefore_of_beginsVisibly (h : BeginsVisibly next) : BeginsBefore 3 next :=
  ⟨0, next, by decide, h, rfl⟩

theorem beginsBefore_members {members : List Member} (h : ∀ m ∈ members, m.Reads)
    (hnext : BeginsBefore 3 next) : BeginsBefore 3 (members.flatMap Member.text ++ next) := by
  cases members with
  | nil => exact hnext
  | cons m members =>
    have hkey := (h m List.mem_cons_self).isKey
    refine ⟨2, m.name.toList ++ (": ".toList ++ (m.lines ++ (members.flatMap Member.text ++ next))),
      by decide, beginsVisibly_of_isKey hkey _, ?_⟩
    simp [Member.text, List.replicate]

/-- A member is its name behind two spaces, and its value behind the colon. -/
theorem text_append (m : Member) (next : List Char) : m.text ++ next =
    List.replicate 2 ' ' ++ (m.name.toList ++ ':' :: ' ' :: (m.lines ++ next)) := by
  simp [Member.text, List.replicate]

/-- The value of a member leads to the next line. -/
theorem Member.Reads.leads_value {m : Member} (h : m.Reads) (hnext : BeginsBefore 3 next)
    (hp : p.column = 0) (before : List Token) (floors : List Nat) : ∃ q : Position, q.column = 0 ∧
      Leads 1 (between false (' ' :: (m.lines ++ next)) (p.skip (2 + m.name.toList.length + 1))
        (.value :: keyOf m.name.toList :: .key :: before) 3 floors)
        (between true next q (m.tokens.reverse ++ before) 3 floors) :=
  h.shows next _ _ floors (by rw [Position.column_skip]; omega) hnext

/-- A member in a section that is open. -/
theorem Member.Reads.leads {m : Member} (h : m.Reads) (hnext : BeginsBefore 3 next)
    (hp : p.column = 0) (before : List Token) (floors : List Nat) : ∃ q : Position, q.column = 0 ∧
      Leads 3 (between true (m.text ++ next) p before 3 floors)
        (between true next q (m.tokens.reverse ++ before) 3 floors) := by
  obtain ⟨q, hq, hvalue⟩ := h.leads_value hnext hp before floors
  rw [text_append]
  exact ⟨q, hq, (leads_key h.isKey rfl hp before floors).trans hvalue⟩

/-- The member that a section begins with. -/
theorem Member.Reads.leads_first {m : Member} (h : m.Reads) (hnext : BeginsBefore 3 next)
    (hp : p.column = 0) (before : List Token) : ∃ q : Position, q.column = 0 ∧
      Leads 3 (between true (m.text ++ next) p before 1 [0])
        (between true next q (m.tokens.reverse ++ .blockMappingStart :: before) 3 [1, 0]) := by
  obtain ⟨q, hq, hvalue⟩ := h.leads_value hnext hp (.blockMappingStart :: before) [1, 0]
  rw [text_append]
  exact ⟨q, hq, (leads_firstKey h.isKey rfl hp (by decide) before [0]).trans hvalue⟩

/-- The members of a section that is open. -/
theorem leads_members {members : List Member} (h : ∀ m ∈ members, m.Reads)
    (hnext : BeginsBefore 3 next) (hp : p.column = 0) (before : List Token) (floors : List Nat) :
    ∃ q : Position, q.column = 0 ∧
      Leads (3 * members.length)
        (between true (members.flatMap Member.text ++ next) p before 3 floors)
        (between true next q ((members.flatMap Member.tokens).reverse ++ before) 3 floors) := by
  induction members generalizing p before with
  | nil => exact ⟨p, hp, .of_approach rfl⟩
  | cons m members ih =>
    have hmembers : ∀ m ∈ members, m.Reads := fun n hn => h n (List.mem_cons_of_mem m hn)
    obtain ⟨q, hq, hleads⟩ := (h m List.mem_cons_self).leads
      (beginsBefore_members hmembers hnext) hp
      before floors
    obtain ⟨r, hr, hleads'⟩ := ih hmembers hq (m.tokens.reverse ++ before)
    refine ⟨r, hr, ?_⟩
    have hall := hleads.trans hleads'
    rw [List.flatMap_cons, List.append_assoc, List.flatMap_cons, List.reverse_append,
      List.append_assoc, List.length_cons, Nat.mul_succ, Nat.add_comm]
    exact hall

/-- A section ends before a line that is not indented. -/
theorem leads_close (h : BeginsVisibly next) (hq : q.column = 0) (before : List Token) :
    Leads 0 (between true next q before 3 [1, 0])
      (between true next q (.blockEnd :: before) 1 [0]) := by
  apply Leads.of_approach
  have hinner := approach_spaces h true 0 q before 3 [1, 0]
  have houter := approach_spaces h true 0 q (.blockEnd :: before) 1 [0]
  rw [hq] at hinner houter
  exact hinner.trans houter.symm

/-- What follows the name of a section. -/
theorem Section.Reads.leads_inside {s : Section} (h : s.Reads) (hnext : BeginsVisibly next)
    (p : Position) (before : List Token) : ∃ q : Position, q.column = 0 ∧
      Leads (3 * s.members.length)
        (between false ('\n' :: (s.members.flatMap Member.text ++ next)) p before 1 [0])
        (between true next q (.blockEnd :: (s.members.flatMap Member.tokens).reverse ++
          .blockMappingStart :: before) 1 [0]) := by
  obtain ⟨m, members, hmembers⟩ := List.exists_cons_of_ne_nil h.members_ne_nil
  have hread := h.members
  have hnext' := beginsBefore_of_beginsVisibly hnext
  rw [hmembers] at hread ⊢
  have hrest : ∀ m ∈ members, m.Reads := fun n hn => hread n (List.mem_cons_of_mem m hn)
  have hfirst := hread m List.mem_cons_self
  have hvisible := beginsVisibly_of_isKey hfirst.isKey
    (':' :: ' ' :: (m.lines ++ (members.flatMap Member.text ++ next)))
  obtain ⟨q, hq, hm⟩ := hfirst.leads_first
    (beginsBefore_members hrest hnext') p.column_nextLine before
  obtain ⟨r, hr, hms⟩ := leads_members hrest hnext' hq
    (m.tokens.reverse ++ .blockMappingStart :: before)
    [1, 0]
  -- the first member opens the mapping, the others are in it, and the next line closes it
  have hfeed := leads_feed hvisible false 2 p before 1 [0]
  rw [← text_append] at hfeed
  have hall := ((hfeed.trans hm).trans hms).trans (leads_close hnext hr _)
  have hcount : 0 + 3 + 3 * members.length + 0 = 3 * (m :: members).length := by
    rw [List.length_cons]
    omega
  rw [hcount] at hall
  refine ⟨r, hr, ?_⟩
  simpa only [List.flatMap_cons, List.append_assoc, List.reverse_append,
    List.cons_append] using hall

/-- The number of tokens that a section is read by. -/
def Section.count (s : Section) : Nat := 2 + 3 * s.members.length

theorem Section.text_append (s : Section) (next : List Char) : s.text ++ next =
    List.replicate 0 ' ' ++
      (s.name.toList ++ ':' :: '\n' :: (s.members.flatMap Member.text ++ next)) := by
  simp [Section.text]

/-- The name of a section leads to the end of the section. -/
theorem Section.Reads.leads_of_key {s : Section} {l : Lexer} (h : s.Reads)
    (hnext : BeginsVisibly next)
    (hkey : Leads 2 l (between false ('\n' :: (s.members.flatMap Member.text ++ next)) p
      (.value :: keyOf s.name.toList :: .key :: before) 1 [0])) : ∃ q : Position, q.column = 0 ∧
    Leads s.count l (between true next q (s.tokens.reverse ++ before) 1 [0]) := by
  obtain ⟨q, hq, hinside⟩ := h.leads_inside hnext p
    (.value :: keyOf s.name.toList :: .key :: before)
  refine ⟨q, hq, ?_⟩
  simpa [Section.tokens, Section.count] using hkey.trans hinside

/-- A section after others. -/
theorem Section.Reads.leads {s : Section} (h : s.Reads) (hnext : BeginsVisibly next)
    (hp : p.column = 0) (before : List Token) : ∃ q : Position, q.column = 0 ∧
      Leads s.count (between true (s.text ++ next) p before 1 [0])
        (between true next q (s.tokens.reverse ++ before) 1 [0]) := by
  rw [Section.text_append]
  exact h.leads_of_key hnext (leads_key h.isKey rfl hp before [0])

/-- The section that a document begins with. -/
theorem Section.Reads.leads_first {s : Section} (h : s.Reads) (hnext : BeginsVisibly next)
    (hp : p.column = 0) : ∃ q : Position, q.column = 0 ∧
      Leads s.count (between true (s.text ++ next) p [] 0 [])
        (between true next q (s.tokens.reverse ++ [.blockMappingStart]) 1 [0]) := by
  rw [Section.text_append]
  exact h.leads_of_key hnext (leads_firstKey h.isKey rfl hp (Nat.le_refl 0) [] [])

theorem Section.Reads.beginsVisibly {s : Section} (h : s.Reads) (tail : List Char) :
    BeginsVisibly (s.text ++ tail) := by
  rw [Section.text_append]
  exact beginsVisibly_of_isKey h.isKey _

theorem beginsVisibly_sections {sections : List Section} (h : ∀ s ∈ sections, s.Reads)
    (hnext : BeginsVisibly next) : BeginsVisibly (sections.flatMap Section.text ++ next) := by
  cases sections with
  | nil => exact hnext
  | cons s sections =>
    rw [List.flatMap_cons, List.append_assoc]
    exact (h s List.mem_cons_self).beginsVisibly _

/-- The sections after the first one. -/
theorem leads_sections {sections : List Section} (h : ∀ s ∈ sections, s.Reads)
    (hnext : BeginsVisibly next) (hp : p.column = 0) (before : List Token) :
    ∃ q : Position, q.column = 0 ∧
      Leads (sections.map Section.count).sum
        (between true (sections.flatMap Section.text ++ next) p before 1 [0])
        (between true next q ((sections.flatMap Section.tokens).reverse ++ before) 1 [0]) := by
  induction sections generalizing p before with
  | nil => exact ⟨p, hp, .of_approach rfl⟩
  | cons s sections ih =>
    have hsections : ∀ s ∈ sections, s.Reads := fun t ht => h t (List.mem_cons_of_mem s ht)
    obtain ⟨q, hq, hleads⟩ := (h s List.mem_cons_self).leads
      (beginsVisibly_sections hsections hnext) hp
      before
    obtain ⟨r, hr, hleads'⟩ := ih hsections hq (s.tokens.reverse ++ before)
    refine ⟨r, hr, ?_⟩
    rw [List.flatMap_cons, List.append_assoc, List.flatMap_cons, List.reverse_append,
      List.append_assoc]
    exact hleads.trans hleads'

/-! ### The end of a document -/

/-- What may be written after the sections: nothing, or the mark that ends a document. -/
def ending (marked : Bool) : List Char := if marked then "...\n".toList else []

/-- The token of what is written after the sections. -/
def endingTokens (marked : Bool) : List Token := if marked then [.documentEnd] else []

theorem beginsVisibly_ending (marked : Bool) : BeginsVisibly (ending marked) := by
  cases marked with
  | true =>
    rintro c ⟨⟩
    decide
  | false => exact nofun

/-- The mark that ends a document ends its mapping, too. -/
theorem leads_mark (hq : q.column = 0) (before : List Token) :
    Leads 1 (between true (ending true) q before 1 [0])
      (between false ['\n'] (q.skip 3) (.documentEnd :: .blockEnd :: before) 0 []) := by
  have happroach := approach_spaces (beginsVisibly_ending true) true 0 q before 1 [0]
  rw [hq, unroll_of_le (Nat.le_refl 1)] at happroach
  apply Leads.of_take? (congrArg (·.cursor.rest) happroach)
  rw [happroach, take?]
  simp only [between, Position.column_skip, hq]
  rfl

/-- Nothing is left to be read. -/
theorem run_of_nil {l : Lexer} (h : l.approach.cursor.rest = []) (fuel : Nat) :
    l.run (fuel + 1) = l.approach.finish? := by
  rw [run]
  simp only [h]

/-- The mapping of the sections ends with the document. -/
theorem run_ending (marked : Bool) (hq : q.column = 0) (before : List Token) (fuel : Nat) :
    (between true (ending marked) q before 1 [0]).run (fuel + 1 + (endingTokens marked).length) =
      some (before.reverse ++ .blockEnd :: endingTokens marked) := by
  have hnil : BeginsVisibly [] := nofun
  cases marked with
  | true =>
    have happroach :=
      approach_feed hnil false 0 (q.skip 3) (.documentEnd :: .blockEnd :: before) 0 []
    rw [unroll_of_le (Nat.zero_le 1)] at happroach
    have hrun := run_of_nil (congrArg (·.cursor.rest) happroach) fuel
    rw [happroach] at hrun
    rw [endingTokens, if_pos rfl, List.length_singleton, leads_mark hq before (fuel + 1)]
    refine hrun.trans ?_
    show some (List.reverse (.documentEnd :: .blockEnd :: before)) = _
    simp
  | false =>
    have happroach := approach_spaces hnil true 0 q before 1 [0]
    rw [hq, unroll_of_le (Nat.le_refl 1)] at happroach
    have hrun := run_of_nil (congrArg (·.cursor.rest) happroach) fuel
    rw [happroach] at hrun
    rw [endingTokens, if_neg Bool.false_ne_true, List.length_nil, Nat.add_zero]
    refine hrun.trans ?_
    show some (List.reverse (.blockEnd :: before)) = _
    rw [List.reverse_cons]

/-! ### Whole documents -/

/-- The text of a document of sections. -/
def documentText (sections : List Section) (marked : Bool) : List Char :=
  sections.flatMap Section.text ++ ending marked

/-- Every token has a character. -/
theorem Section.count_le (s : Section) : s.count ≤ s.text.length := by
  have hmembers (members : List Member) :
      3 * members.length ≤ (members.flatMap Member.text).length := by
    induction members with
    | nil => exact Nat.zero_le _
    | cons m members ih =>
      have hm : 3 ≤ m.text.length := by
        simp [Member.text]
        omega
      rw [List.length_cons, List.flatMap_cons, List.length_append]
      omega
  have hs := hmembers s.members
  have hname : 2 ≤ (s.name.toList ++ ":\n".toList).length := by simp
  rw [count, text, List.length_append]
  omega

theorem sum_count_le (sections : List Section) :
    (sections.map Section.count).sum ≤ (sections.flatMap Section.text).length := by
  induction sections with
  | nil => exact Nat.zero_le _
  | cons s sections ih =>
    have hs := s.count_le
    rw [List.map_cons, List.sum_cons, List.flatMap_cons, List.length_append]
    omega

theorem isPrintable_of_isKey {name : List Char} (h : isKey name = true) {c : Char} (hc : c ∈ name) :
    isPrintable c = true := by
  simp only [isKey, canBePlain, Bool.and_eq_true, Bool.not_eq_true', Bool.or_eq_false_iff] at h
  exact ScalarWriter.isPrintable_of_hasSpecial h.1.1.1.1.1.1.1.1 hc

theorem Member.Reads.isPrintable_text {m : Member} (h : m.Reads) {c : Char} (hc : c ∈ m.text) :
    isPrintable c = true := by
  have hspaces : ∀ c ∈ "  ".toList, isPrintable c = true := List.all_eq_true.1 (by decide)
  have hcolon : ∀ c ∈ ": ".toList, isPrintable c = true := List.all_eq_true.1 (by decide)
  rw [text, List.mem_append, List.mem_append, List.mem_append] at hc
  rcases hc with ((hc | hc) | hc) | hc
  · exact hspaces c hc
  · exact isPrintable_of_isKey h.isKey hc
  · exact hcolon c hc
  · exact h.printable c hc

theorem Section.Reads.isPrintable_text {s : Section} (h : s.Reads) {c : Char} (hc : c ∈ s.text) :
    isPrintable c = true := by
  have hcolon : ∀ c ∈ ":\n".toList, isPrintable c = true := List.all_eq_true.1 (by decide)
  rw [text, List.mem_append, List.mem_append, List.mem_flatMap] at hc
  rcases hc with (hc | hc) | ⟨m, hm, hc⟩
  · exact isPrintable_of_isKey h.isKey hc
  · exact hcolon c hc
  · exact (h.members m hm).isPrintable_text hc

theorem isPrintable_documentText {sections : List Section} (h : ∀ s ∈ sections, s.Reads)
    (marked : Bool) : (documentText sections marked).all isPrintable = true := by
  have hending : ∀ c ∈ ending marked, isPrintable c = true :=
    List.all_eq_true.1 (by cases marked <;> decide)
  rw [List.all_eq_true]
  intro c hc
  rw [documentText, List.mem_append, List.mem_flatMap] at hc
  rcases hc with ⟨s, hs, hc⟩ | hc
  · exact (h s hs).isPrintable_text hc
  · exact hending c hc

/-- The tokens of a document of sections. -/
theorem ofText?_sections {sections : List Section} (h : ∀ s ∈ sections, s.Reads)
    (hne : sections ≠ []) (marked : Bool) : Token.ofText? (documentText sections marked) =
      some (.blockMappingStart :: sections.flatMap Section.tokens ++
        .blockEnd :: endingTokens marked) := by
  have hprintable := isPrintable_documentText h marked
  have hallowed : (documentText sections marked).all isAllowed = true := by
    rw [List.all_eq_true] at hprintable ⊢
    exact fun c hc => isAllowed_of_isPrintable (hprintable c hc)
  rw [Token.ofText?, if_pos hallowed, normalizeBreaks_eq_self hprintable]
  obtain ⟨first, more, rfl⟩ := List.exists_cons_of_ne_nil hne
  have hmore : ∀ s ∈ more, s.Reads := fun s hs => h s (List.mem_cons_of_mem first hs)
  have hvisible := beginsVisibly_sections hmore (beginsVisibly_ending marked)
  obtain ⟨q, hq, hfirst⟩ := (h first List.mem_cons_self).leads_first hvisible (p := .start) rfl
  obtain ⟨r, hr, hrest⟩ := leads_sections hmore (beginsVisibly_ending marked) hq
    (first.tokens.reverse ++ [.blockMappingStart])
  have hleads := hfirst.trans hrest
  have htext : first.text ++ (more.flatMap Section.text ++ ending marked) =
      documentText (first :: more) marked := by
    rw [documentText, List.flatMap_cons, List.append_assoc]
  have hlength : first.count + (more.map Section.count).sum + (endingTokens marked).length ≤
      (documentText (first :: more) marked).length := by
    have hcount := sum_count_le (first :: more)
    have hending : (endingTokens marked).length ≤ (ending marked).length := by
      cases marked <;> decide
    rw [List.map_cons, List.sum_cons] at hcount
    rw [documentText, List.length_append]
    omega
  rw [htext] at hleads
  -- there is at least one character for each token
  obtain ⟨fuel, hfuel⟩ := Nat.exists_eq_add_of_le hlength
  have hrun := hleads (fuel + 1 + (endingTokens marked).length)
  rw [run_ending marked hr] at hrun
  have hsum : (documentText (first :: more) marked).length + 1 =
      fuel + 1 + (endingTokens marked).length + (first.count + (more.map Section.count).sum) := by
    omega
  dsimp only
  rw [hsum]
  refine hrun.trans ?_
  simp

/-! ### Nodes -/

/-- The node of a name. -/
def nameNode (name : String) : Yaml.Node := .scalar .none ⟨.plain, name.toList⟩

/-- The nodes of a member. -/
def Member.nodes (m : Member) : Yaml.Node × Yaml.Node := (nameNode m.name, .scalar .none m.scalar)

/-- The nodes of a section. -/
def Section.nodes (s : Section) : Yaml.Node × Yaml.Node :=
  (nameNode s.name, .mapping .none (s.members.map Member.nodes))

variable {handles : List Tag.Handle} {rest : List Token} {fuel : Nat}

theorem read?_scalar (block indentless : Bool) (fuel : Nat) (scalar : Scalar) (rest : List Token) :
    Node.read? handles block indentless (fuel + 1) (.scalar scalar :: rest) =
      some (.scalar .none scalar, rest) := by
  simp [Node.read?, Node.properties?, Node.scalarProperties, Properties.none]

theorem readOr?_scalar (fuel : Nat) (scalar : Scalar) (rest : List Token) :
    Node.readOr? handles true true Node.endsBlockPart (fuel + 2) (.scalar scalar :: rest) =
      some (.scalar .none scalar, rest) := by
  rw [Node.readOr?, read?_scalar]
  rfl

/-- The members of a section are its entries. -/
theorem readBlockEntries?_members (members : List Member) (hfuel : members.length + 4 ≤ fuel)
    (handles : List Tag.Handle) (rest : List Token) :
    Node.readBlockEntries? handles fuel (members.flatMap Member.tokens ++ .blockEnd :: rest) =
      some (members.map Member.nodes, rest) := by
  induction members generalizing fuel with
  | nil =>
    obtain ⟨fuel, rfl⟩ := Nat.exists_eq_add_of_le' hfuel
    simp [Node.readBlockEntries?]
  | cons m members ih =>
    rw [List.length_cons] at hfuel
    obtain ⟨fuel, rfl⟩ := Nat.exists_eq_add_of_le' (show 4 ≤ fuel by omega)
    -- the entries after this one are read with one step less
    have hmembers := ih (show members.length + 4 ≤ fuel + 3 by omega)
    simp [Member.tokens, keyOf, Node.readBlockEntries?, readOr?_scalar, Node.readValue?, hmembers,
      Member.nodes, nameNode]

/-- The members of a section are its value. -/
theorem readValue?_members (members : List Member) (hfuel : members.length + 4 ≤ fuel)
    (handles : List Tag.Handle) (rest : List Token) :
    Node.readValue? handles true true Node.endsBlockPart (fuel + 3)
        (.value :: .blockMappingStart :: (members.flatMap Member.tokens ++ .blockEnd :: rest)) =
      some (.mapping .none (members.map Member.nodes), rest) := by
  have hentries := readBlockEntries?_members members hfuel handles rest
  simp [Node.readValue?, Node.readOr?, Node.next, Node.endsBlockPart, Node.read?, Node.properties?,
    hentries]

theorem length_le_tokens (s : Section) : s.members.length + 5 ≤ s.tokens.length := by
  have hmembers (members : List Member) :
      members.length ≤ (members.flatMap Member.tokens).length := by
    induction members with
    | nil => exact Nat.zero_le _
    | cons m members ih =>
      rw [List.length_cons, List.flatMap_cons, List.length_append, Member.tokens]
      simp only [List.length_cons]
      omega
  have hs := hmembers s.members
  simp only [Section.tokens, List.length_append, List.length_cons, List.length_nil]
  omega

/-- The sections are the entries of the document. -/
theorem readBlockEntries?_sections (sections : List Section)
    (hfuel : (sections.flatMap Section.tokens).length + 4 ≤ fuel) (handles : List Tag.Handle)
    (rest : List Token) :
    Node.readBlockEntries? handles fuel (sections.flatMap Section.tokens ++ .blockEnd :: rest) =
      some (sections.map Section.nodes, rest) := by
  induction sections generalizing fuel with
  | nil =>
    obtain ⟨fuel, rfl⟩ := Nat.exists_eq_add_of_le' hfuel
    simp [Node.readBlockEntries?]
  | cons s sections ih =>
    have hlength := length_le_tokens s
    rw [List.flatMap_cons, List.length_append] at hfuel
    obtain ⟨fuel, rfl⟩ := Nat.exists_eq_add_of_le' (show 4 ≤ fuel by omega)
    have hsections := ih (show (sections.flatMap Section.tokens).length + 4 ≤ fuel + 3 by omega)
    have hmembers := readValue?_members s.members
      (show s.members.length + 4 ≤ fuel by omega) handles
      (sections.flatMap Section.tokens ++ .blockEnd :: rest)
    simp [Section.tokens, keyOf, Node.readBlockEntries?, readOr?_scalar, hmembers, hsections,
      Section.nodes, nameNode]

/-! ### The document -/

/-- The value of a name. -/
def nameValue (name : String) : Value := .scalar none ⟨.plain, name.toList⟩

/-- The values of a member. -/
def Member.values (m : Member) : Value × Value := (nameValue m.name, .scalar none m.scalar)

/-- The values of a section. -/
def Section.values (s : Section) : Value × Value :=
  (nameValue s.name, .mapping none (s.members.map Member.values))

theorem ofNode?_scalar (a : Anchors) (scalar : Scalar) :
    Value.ofNode? a (.scalar .none scalar) = some (.scalar none scalar, a) := rfl

theorem ofNode?_mapping {a : Anchors} {entries : List (Yaml.Node × Yaml.Node)}
    {values : List (Value × Value)} (h : Value.ofEntries? a entries = some (values, a)) :
    Value.ofNode? a (.mapping .none entries) = some (.mapping none values, a) := by
  rw [Value.ofNode?]
  simp [Properties.none, Anchors.name, Anchors.bind, h]

theorem ofEntries?_members (a : Anchors) (members : List Member) :
    Value.ofEntries? a (members.map Member.nodes) = some (members.map Member.values, a) := by
  induction members with
  | nil => rfl
  | cons m members ih =>
    simp [Member.nodes, nameNode, Value.ofEntries?, ofNode?_scalar, ih, Member.values, nameValue]

theorem ofEntries?_sections (a : Anchors) (sections : List Section) :
    Value.ofEntries? a (sections.map Section.nodes) = some (sections.map Section.values, a) := by
  induction sections with
  | nil => rfl
  | cons s sections ih =>
    have hmapping := ofNode?_mapping (ofEntries?_members a s.members)
    simp [Section.nodes, nameNode, Value.ofEntries?, ofNode?_scalar, hmapping, ih, Section.values,
      nameValue]

/-- **Documents of sections.** A document of sections that are read as they are meant is the mapping
of these sections. -/
theorem parse?_sections {sections : List Section} (h : ∀ s ∈ sections, s.Reads)
    (hne : sections ≠ []) (marked : Bool) : Document.parse? (documentText sections marked) =
      some ⟨.mapping none (sections.map Section.values), .empty⟩ := by
  have hending : (endingTokens marked).all (fun t => t = .documentEnd) = true := by
    cases marked <;> rfl
  generalize htokens : endingTokens marked = rest at hending
  have hread (fuel : Nat) (hfuel : (sections.flatMap Section.tokens).length + 4 ≤ fuel) :
      Node.read? Tag.standard true false (fuel + 1)
        (.blockMappingStart :: (sections.flatMap Section.tokens ++ .blockEnd :: rest)) =
          some (.mapping .none (sections.map Section.nodes), rest) := by
    have hentries := readBlockEntries?_sections sections hfuel Tag.standard rest
    simp [Node.read?, Node.properties?, hentries]
  have hnode : Node.ofTokens? Tag.standard
      (.blockMappingStart :: (sections.flatMap Section.tokens ++ .blockEnd :: rest)) =
        some (.mapping .none (sections.map Section.nodes), rest) := by
    apply hread
    rw [List.length_cons, List.length_append]
    omega
  have hvalue := ofNode?_mapping (ofEntries?_sections .empty sections)
  rw [Document.parse?, ofText?_sections h hne marked, Option.bind_some, htokens, Document.ofTokens?]
  simp [Document.node?, Document.beginsMarked, hnode, hending, hvalue]

end Keyring.Config
