import Keyring.Yaml.Scalar.Block
import Keyring.Yaml.Scalar.Plain
import Keyring.Yaml.Scalar.Quoted
import Keyring.Yaml.Token

/-!
# From text to tokens

The lexer reads one token after the other and keeps track of indentation. Two things need memory.
A block collection begins where a line is indented more than the block around it and ends where one
is indented less. And a key is known as a key only by the colon after it: whatever may be a key is
remembered with the number of tokens before it, and when the colon comes, the key mark is put there
after the fact. Such a key must lie on one line, within `keyReach` characters of the colon.
-/

namespace Keyring.Yaml

/-- What may turn out to be a key. -/
structure KeyCandidate where
  /-- Whether it cannot be anything else. -/
  required : Bool
  /-- The number of tokens before it. -/
  number : Nat
  /-- Where it begins. -/
  position : Position
  deriving DecidableEq, Repr

/-- A lexer at work. -/
structure Lexer where
  /-- What is still to be read. -/
  cursor : Cursor
  /-- The tokens read so far, the last one first. -/
  tokens : List Token
  /-- One more than the indentation of the current block; zero outside of all blocks. -/
  floor : Nat
  /-- The floors of the enclosing blocks, the innermost one first. -/
  floors : List Nat
  /-- Whether a key may begin here. -/
  keyAllowed : Bool
  /-- What may turn out to be the current key, in the block and in each flow collection around,
  the innermost one first. -/
  candidates : List (Option KeyCandidate)

namespace Lexer

/-- How far before its colon a key may begin. -/
def keyReach : Nat := 1024

/-- A lexer at the start of a text. -/
def start (text : List Char) : Lexer := ⟨⟨text, .start⟩, [], 0, [], true, [none]⟩

/-- Whether a flow collection is open. -/
def inFlow (l : Lexer) : Bool := 1 < l.candidates.length

/-- Add a token. -/
def emit (l : Lexer) (token : Token) : Lexer := { l with tokens := token :: l.tokens }

/-- Insert a token so that it stands after a number of tokens. -/
def insert (l : Lexer) (number : Nat) (token : Token) : Lexer :=
  let later := l.tokens.length - number
  { l with tokens := l.tokens.take later ++ token :: l.tokens.drop later }

/-- Go on after a cursor. -/
def goTo (l : Lexer) (cursor : Cursor) : Lexer := { l with cursor }

/-- Go past some characters of the line. -/
def skip (l : Lexer) (count : Nat) : Lexer := l.goTo (l.cursor.skip count)

/-- Say whether a key may begin here. -/
def allowKey (l : Lexer) (keyAllowed : Bool) : Lexer := { l with keyAllowed }

/-- Close the blocks whose floor is above a given one. -/
def closeBlocks (floor : Nat) (l : Lexer) : List Nat → Lexer
  | [] => { l with floors := [] }
  | outer :: floors =>
    if floor < l.floor then closeBlocks floor ({ l with floor := outer }.emit .blockEnd) floors
    else { l with floors := outer :: floors }

/-- Close the blocks that are indented more than a floor allows; in flow collections indentation
does not count. -/
def unroll (l : Lexer) (floor : Nat) : Lexer :=
  if l.inFlow then l else closeBlocks floor l l.floors

/-- Open a block at a column, unless one is open there; its mark goes after a number of tokens. -/
def roll (l : Lexer) (column number : Nat) (mark : Token) : Lexer :=
  if l.inFlow || column < l.floor then l
  else { l with floor := column + 1, floors := l.floor :: l.floors }.insert number mark

/-- Give up the current candidate for a key, which must not be required. -/
def dropCandidate? (l : Lexer) : Option Lexer :=
  match l.candidates with
  | some k :: outer =>
    if k.required then none else some { l with candidates := none :: outer }
  | _ => some l

/-- Remember that a key may begin here. -/
def markCandidate? (l : Lexer) : Option Lexer :=
  if l.keyAllowed then do
    let l ← l.dropCandidate?
    let position := l.cursor.position
    let required := !l.inFlow && l.floor = position.column + 1
    return { l with
      candidates := some ⟨required, l.tokens.length, position⟩ :: l.candidates.tail }
  else some l

/-- Whether a candidate can still be the key of a colon at a place. -/
def inReach (k : KeyCandidate) (p : Position) : Bool :=
  p.line ≤ k.position.line && p.index ≤ k.position.index + keyReach

/-- Go past white space and comments to the next token. -/
def skipSpace (flow keyAllowed comment : Bool) (p : Position) : List Char → Bool × Cursor
  | [] => (keyAllowed, ⟨[], p⟩)
  | c :: rest =>
    if isBreak c then skipSpace flow (keyAllowed || !flow) false p.nextLine rest
    else if comment || c = '#' then skipSpace flow keyAllowed true p.next rest
    else if c = ' ' || (c = '\t' && (flow || !keyAllowed)) || (c = '\ufeff' && p.column = 0) then
      skipSpace flow keyAllowed false p.next rest
    else (keyAllowed, ⟨c :: rest, p⟩)

/-- Go to the next token, and close the blocks that ended before it. -/
def approach (l : Lexer) : Lexer :=
  let (keyAllowed, cursor) :=
    skipSpace l.inFlow l.keyAllowed false l.cursor.position l.cursor.rest
  ({ l with keyAllowed, cursor }).unroll (cursor.position.column + 1)

/-- Read a number of at most nine digits. -/
def number? (c : Cursor) : Option (Nat × Cursor) :=
  let digits := c.rest.takeWhile Char.isDigit
  if digits = [] || 9 < digits.length then none
  else some (digits.foldl (fun n d => 10 * n + (d.toNat - 48)) 0, c.skip digits.length)

/-- Read a directive. -/
def directive? (c : Cursor) : Option (Token × Cursor) := do
  let c := c.skip 1
  let name := c.rest.takeWhile isNameChar
  let c := c.skip name.length
  if name = [] || !atSpace c.rest then none
  else if name = "YAML".toList then
    let (major, c) ← number? c.skipBlanks
    if c.rest.head? = some '.' then
      let (minor, c) ← number? (c.skip 1)
      let c ← c.endLine?
      return (.versionDirective major minor, c)
    else none
  else if name = "TAG".toList then
    let (handle, c) ← Tag.directive? c
    let c ← c.endLine?
    return (.tagDirective handle, c)
  else none

/-- Read the name of an anchor or alias after its indicator. -/
def name? (c : Cursor) : Option (List Char × Cursor) :=
  let name := c.rest.takeWhile isNameChar
  let c := c.skip name.length
  if name = [] then none
  else if atSpace c.rest || c.rest.head?.any fun x => "?:,]\x7d%@`".toList.contains x then
    some (name, c)
  else none

/-- Take a mark between documents or a directive. -/
def takeOutside? (l : Lexer) : Option Lexer := (l.unroll 0).dropCandidate?.map (·.allowKey false)

/-- Take the opening of a flow collection. -/
def takeOpening? (l : Lexer) (token : Token) : Option Lexer := do
  let l ← l.markCandidate?
  return (({ l with candidates := none :: l.candidates }.allowKey true).skip 1).emit token

/-- Take the closing of a flow collection. -/
def takeClosing? (l : Lexer) (token : Token) : Option Lexer := do
  let l ← l.dropCandidate?
  let candidates := if l.inFlow then l.candidates.tail else l.candidates
  return (({ l with candidates }.allowKey false).skip 1).emit token

/-- Take a comma of a flow collection. -/
def takeComma? (l : Lexer) : Option Lexer := do
  let l ← l.dropCandidate?
  return ((l.allowKey true).skip 1).emit .flowEntry

/-- Open a block here for a mark that asks for one; in a block it may only stand where a key may
begin. -/
def openBlock? (l : Lexer) (mark : Token) : Option Lexer :=
  if l.inFlow then some l
  else if l.keyAllowed then some (l.roll l.cursor.position.column l.tokens.length mark)
  else none

/-- Take the hyphen before an item. -/
def takeHyphen? (l : Lexer) : Option Lexer := do
  let l ← l.openBlock? .blockSequenceStart
  let l ← l.dropCandidate?
  return ((l.allowKey true).skip 1).emit .blockEntry

/-- Take the question mark before a key. -/
def takeQuestion? (l : Lexer) : Option Lexer := do
  let l ← l.openBlock? .blockMappingStart
  let l ← l.dropCandidate?
  return ((l.allowKey (!l.inFlow)).skip 1).emit .key

/-- Take the colon before a value. -/
def takeColon? (l : Lexer) : Option Lexer :=
  match l.candidates with
  | some k :: outer =>
    if inReach k l.cursor.position then
      let l := { l with candidates := none :: outer, keyAllowed := false }.insert k.number .key
      some (((l.roll k.position.column k.number .blockMappingStart).skip 1).emit .value)
    else if k.required then none
    else takeLone { l with candidates := none :: outer }
  | _ => takeLone l
where
  /-- Take a colon that has no key before it. -/
  takeLone (l : Lexer) : Option Lexer := do
    let l ← l.openBlock? .blockMappingStart
    return ((l.allowKey (!l.inFlow)).skip 1).emit .value

/-- Take an anchor or alias. -/
def takeName? (l : Lexer) (token : List Char → Token) : Option Lexer := do
  let l ← l.markCandidate?
  let (name, c) ← name? (l.cursor.skip 1)
  return ((l.allowKey false).goTo c).emit (token name)

/-- Take a tag. -/
def takeTag? (l : Lexer) : Option Lexer := do
  let l ← l.markCandidate?
  let (tag, c) ← Tag.read? l.inFlow l.cursor
  return ((l.allowKey false).goTo c).emit (.tag tag)

/-- Take a block scalar. -/
def takeBlock? (l : Lexer) (literal : Bool) : Option Lexer := do
  let l ← l.dropCandidate?
  let (text, c) ← Block.read? literal l.floor (l.cursor.skip 1)
  return ((l.allowKey true).goTo c).emit
    (.scalar ⟨if literal then .literal else .folded, text⟩)

/-- Take a quoted scalar. -/
def takeQuoted? (l : Lexer) (single : Bool) : Option Lexer := do
  let l ← l.markCandidate?
  let (text, c) ←
    if single then Quoted.single? (l.cursor.skip 1) else Quoted.double? (l.cursor.skip 1)
  return ((l.allowKey false).goTo c).emit
    (.scalar ⟨if single then .singleQuoted else .doubleQuoted, text⟩)

/-- Take a plain scalar. -/
def takePlain? (l : Lexer) : Option Lexer := do
  let l ← l.markCandidate?
  let r ← Plain.read? l.inFlow l.floor l.cursor
  return ((l.allowKey r.endsLine).goTo r.cursor).emit (.scalar ⟨.plain, r.text⟩)

/-- Whether a character is an indicator, so that no plain scalar begins with it. -/
def isIndicator (c : Char) : Bool := "-?:,[]\x7b\x7d#&*!|>'\"%@`".toList.contains c

/-- Whether a plain scalar begins here. -/
def beginsPlain (flow : Bool) (c : Char) (rest : List Char) : Bool :=
  !(isIndicator c || isBlank c) || (c = '-' && !rest.head?.any isBlank) ||
    (!flow && (c = '?' || c = ':') && !atSpace rest)

/-- Take the token that begins with a character. -/
def take? (l : Lexer) (c : Char) (rest : List Char) : Option Lexer :=
  let first := l.cursor.position.column = 0
  if first && c = '%' then do
    let l ← l.takeOutside?
    let (token, cursor) ← directive? l.cursor
    return (l.goTo cursor).emit token
  else if first && atStartMarker (c :: rest) then
    l.takeOutside?.map fun l => (l.skip 3).emit .documentStart
  else if first && atEndMarker (c :: rest) then
    l.takeOutside?.map fun l => (l.skip 3).emit .documentEnd
  else if c = '[' then l.takeOpening? .flowSequenceStart
  else if c = '\x7b' then l.takeOpening? .flowMappingStart
  else if c = ']' then l.takeClosing? .flowSequenceEnd
  else if c = '\x7d' then l.takeClosing? .flowMappingEnd
  else if c = ',' then l.takeComma?
  else if c = '-' && atSpace rest then l.takeHyphen?
  else if c = '?' && (l.inFlow || atSpace rest) then l.takeQuestion?
  else if c = ':' && (l.inFlow || atSpace rest) then l.takeColon?
  else if c = '*' then l.takeName? .alias
  else if c = '&' then l.takeName? .anchor
  else if c = '!' then l.takeTag?
  else if c = '|' && !l.inFlow then l.takeBlock? true
  else if c = '>' && !l.inFlow then l.takeBlock? false
  else if c = '\'' then l.takeQuoted? true
  else if c = '"' then l.takeQuoted? false
  else if beginsPlain l.inFlow c rest then l.takePlain?
  else none

/-- The tokens of a text that has been read to its end. -/
def finish? (l : Lexer) : Option (List Token) :=
  (l.unroll 0).dropCandidate?.map fun l => l.tokens.reverse

/-- Read tokens to the end of the text. Every token has at least one character, so `fuel` needs to
be no more than their number and one. -/
def run (l : Lexer) : Nat → Option (List Token)
  | 0 => none
  | fuel + 1 =>
    let l := l.approach
    match l.cursor.rest with
    | [] => l.finish?
    | c :: rest => (l.take? c rest).bind fun l => run l fuel

end Lexer

/-- The tokens of a text. -/
def Token.ofText? (text : List Char) : Option (List Token) :=
  if text.all isAllowed then
    let text := normalizeBreaks text
    (Lexer.start text).run (text.length + 1)
  else none

end Keyring.Yaml
