import Keyring.Yaml.Character

/-!
# Block scalars

Scalars that are blocks of indented lines below a header. The header may give the number of columns
that the lines are indented by, else the first line that is not empty does, and says what becomes
of the line breaks at the end: usually one is kept, `-` drops all and `+` keeps all.

In a folded block the break between two lines that do not begin with a blank becomes a space.
-/

namespace Keyring.Yaml.Block

/-- What becomes of the line breaks at the end. -/
inductive Chomping where
  /-- None is kept. -/
  | strip
  /-- One is kept. -/
  | clip
  /-- All are kept. -/
  | keep
  deriving DecidableEq, Repr

/-- The chomping that a character of the header asks for. -/
def Chomping.ofChar? : Char → Option Chomping
  | '+' => some .keep
  | '-' => some .strip
  | _ => none

/-- The header of a block. -/
structure Header where
  /-- What becomes of the line breaks at the end. -/
  chomping : Chomping
  /-- The number of columns that the lines are indented by, if it is given. -/
  indent : Option Nat
  deriving DecidableEq, Repr

/-- Read the number of columns in a header. Zero is refused. -/
def indent? (c : Cursor) : Option (Option Nat × Cursor) :=
  match c.rest with
  | d :: _ =>
    if d = '0' then none
    else if d.isDigit then some (some (d.toNat - 48), c.skip 1)
    else some (none, c)
  | [] => some (none, c)

/-- Read the chomping in a header. -/
def chomping (c : Cursor) : Option Chomping × Cursor :=
  match c.rest.head?.bind Chomping.ofChar? with
  | some x => (some x, c.skip 1)
  | none => (none, c)

/-- Read a header: the chomping and the number of columns, in either order. -/
def header? (c : Cursor) : Option (Header × Cursor) :=
  match chomping c with
  | (some chomping, c) => (indent? c).map fun (indent, c) => (⟨chomping, indent⟩, c)
  | (none, c) =>
    match indent? c with
    | none => none
    | some (none, c) => some (⟨.clip, none⟩, c)
    | some (some indent, c) =>
      let (x, c) := chomping c
      some (⟨x.getD .clip, some indent⟩, c)

/-- What was read of a block. -/
structure State where
  /-- The text, the last character first. -/
  text : List Char
  /-- The break at the end of the last line. -/
  leading : List Char
  /-- The breaks of the empty lines after it, the last one first. -/
  trailing : List Char
  /-- Whether the last line begins with a blank. -/
  blank : Bool

/-- The state before the first line, after some empty lines. -/
def State.start (trailing : List Char) : State := ⟨[], [], trailing, false⟩

/-- Begin a line: the breaks before it are joined. -/
def State.beginLine (st : State) (literal blank : Bool) : State :=
  let fold := !literal && st.leading = ['\n'] && !st.blank && !blank
  let joint := if !fold then st.leading else if st.trailing = [] then [' '] else []
  ⟨st.trailing ++ joint ++ st.text, [], [], blank⟩

/-- The text of a block that has ended. -/
def State.finish (st : State) : Chomping → List Char
  | .strip => st.text.reverse
  | .clip => (st.leading ++ st.text).reverse
  | .keep => (st.trailing ++ st.leading ++ st.text).reverse

/-- The empty lines at the start of a block whose indentation is not known: their breaks, the last
one first, the greatest column that was reached, and what follows. A tab is refused in place of
indentation. -/
def findIndent (breaks : List Char) (greatest : Nat) (p : Position) :
    List Char → Option (List Char × Nat × Cursor)
  | [] => some (breaks, max greatest p.column, ⟨[], p⟩)
  | c :: rest =>
    if c = ' ' then findIndent breaks greatest p.next rest
    else if c = '\t' then none
    else if isBreak c then findIndent (c :: breaks) (max greatest p.column) p.nextLine rest
    else some (breaks, max greatest p.column, ⟨c :: rest, p⟩)

/-- Read the lines of a block that are indented by `indent` columns. `inLine` says whether a line
has begun; else the next character stands in the indentation. -/
def readLines (literal : Bool) (indent : Nat) (st : State) (inLine : Bool) (p : Position) :
    List Char → Option (State × Cursor)
  | [] => some (st, ⟨[], p⟩)
  | c :: rest =>
    if inLine then
      if isBreak c then
        readLines literal indent { st with leading := [c] } false p.nextLine rest
      else readLines literal indent { st with text := c :: st.text } true p.next rest
    else if c = ' ' && p.column < indent then readLines literal indent st false p.next rest
    else if c = '\t' && p.column < indent then none
    else if isBreak c then
      readLines literal indent { st with trailing := c :: st.trailing } false p.nextLine rest
    else if p.column = indent then
      let st := st.beginLine literal (isBlank c)
      readLines literal indent { st with text := c :: st.text } true p.next rest
    else some (st, ⟨c :: rest, p⟩)

/-- Read a block after the character that begins its header; `floor` is the least number of columns
that something inside the enclosing block is indented by. -/
def read? (literal : Bool) (floor : Nat) (c : Cursor) : Option (List Char × Cursor) := do
  let (header, c) ← header? c
  let c ← c.endLine?
  let (st, c) ←
    match header.indent with
    | some indent =>
      readLines literal (floor - 1 + indent) (.start []) false c.position c.rest
    | none => do
      let (breaks, greatest, c) ← findIndent [] 0 c.position c.rest
      readLines literal (max (max greatest floor) 1) (.start breaks) false c.position c.rest
  return (st.finish header.chomping, c)

end Keyring.Yaml.Block
