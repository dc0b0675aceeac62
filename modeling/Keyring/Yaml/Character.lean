/-!
# Characters of a document

The classes of characters that the structure of a YAML document hangs on. Line breaks are the line
feed and the line and paragraph separators; the other ways to end a line are turned into line feeds
before a document is read.
-/

namespace Keyring.Yaml

/-- Whether a character may stand in a document at all. -/
def isAllowed (c : Char) : Bool :=
  c = '\t' || c = '\n' || c = '\r' || c = '\u0085' || (' ' ≤ c && c ≤ '~') ||
    ('\u00a0' ≤ c && c ≤ '\ufffd') || 0x10000 ≤ c.toNat

/-- Turn every way to end a line into a line feed, but for the two separators. -/
def normalizeBreaks : List Char → List Char
  | '\r' :: '\n' :: rest => '\n' :: normalizeBreaks rest
  | '\r' :: rest => '\n' :: normalizeBreaks rest
  | '\u0085' :: rest => '\n' :: normalizeBreaks rest
  | c :: rest => c :: normalizeBreaks rest
  | [] => []

/-- Whether a character ends a line. -/
def isBreak (c : Char) : Bool := c = '\n' || c = '\u2028' || c = '\u2029'

/-- Whether a character is a space or a tab. -/
def isBlank (c : Char) : Bool := c = ' ' || c = '\t'

/-- Whether a character may stand in the name of an anchor, a directive or a tag handle. -/
def isNameChar (c : Char) : Bool := c.isAlphanum || c = '_' || c = '-'

/-- Whether a character opens or closes a flow collection. -/
def isBracket (c : Char) : Bool := c = '[' || c = ']' || c = '\x7b' || c = '\x7d'

/-- Whether a text begins with a blank or a break, or ends. -/
def atSpace : List Char → Bool
  | [] => true
  | c :: _ => isBlank c || isBreak c

/-- Whether a line ends here. -/
def atBreak : List Char → Bool
  | [] => true
  | c :: _ => isBreak c

/-- Whether a text begins with three hyphens that stand alone. -/
def atStartMarker : List Char → Bool
  | '-' :: '-' :: '-' :: rest => atSpace rest
  | _ => false

/-- Whether a text begins with three dots that stand alone. -/
def atEndMarker : List Char → Bool
  | '.' :: '.' :: '.' :: rest => atSpace rest
  | _ => false

/-- Whether a text begins with a mark that separates documents. -/
def atMarker (s : List Char) : Bool := atStartMarker s || atEndMarker s

/-- A place in a document: the number of characters before it, its line and its column. -/
structure Position where
  /-- The number of characters before it. -/
  index : Nat
  /-- The number of lines before its line. -/
  line : Nat
  /-- The number of characters before it in its line. -/
  column : Nat
  deriving DecidableEq, Repr

namespace Position

/-- The start of a document. -/
def start : Position := ⟨0, 0, 0⟩

/-- The place after so many characters of a line. -/
def skip (p : Position) (count : Nat) : Position := ⟨p.index + count, p.line, p.column + count⟩

/-- The place after a character that is no break. -/
def next (p : Position) : Position := p.skip 1

/-- The place after a break. -/
def nextLine (p : Position) : Position := ⟨p.index + 1, p.line + 1, 0⟩

end Position

/-- A text that is still to be read, and its place in the document. -/
structure Cursor where
  /-- The text. -/
  rest : List Char
  /-- Its place. -/
  position : Position
  deriving DecidableEq, Repr

namespace Cursor

/-- Go past so many characters of a line. -/
def skip (c : Cursor) (count : Nat) : Cursor := ⟨c.rest.drop count, c.position.skip count⟩

/-- Go past the characters of a line that pass a test. -/
def skipWhile (c : Cursor) (test : Char → Bool) : Cursor := c.skip (c.rest.takeWhile test).length

/-- Go past blanks. -/
def skipBlanks (c : Cursor) : Cursor := c.skipWhile isBlank

/-- Go past a comment, if there is one. -/
def skipComment (c : Cursor) : Cursor :=
  if c.rest.head? = some '#' then c.skipWhile fun x => !isBreak x else c

/-- Go past a break, if there is one. -/
def skipBreak (c : Cursor) : Cursor :=
  match c.rest with
  | [] => c
  | x :: rest => if isBreak x then ⟨rest, c.position.nextLine⟩ else c

/-- Go past blanks and a comment to the end of the line, where nothing else may stand. -/
def endLine? (c : Cursor) : Option Cursor :=
  let c := c.skipBlanks.skipComment
  if atBreak c.rest then some c.skipBreak else none

end Cursor

end Keyring.Yaml
