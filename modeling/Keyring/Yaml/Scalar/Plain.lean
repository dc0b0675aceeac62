import Keyring.Yaml.Gap

/-!
# Plain scalars

Scalars without quotes. One ends before a comment, before a colon with white space after it, before
a mark that separates documents, in a flow collection before an indicator of it, and in a block
before a line that is not indented enough.
-/

namespace Keyring.Yaml.Plain

/-- What was read of a plain scalar. -/
structure Result where
  /-- The text. -/
  text : List Char
  /-- What follows it. -/
  cursor : Cursor
  /-- Whether a line ended after it. -/
  endsLine : Bool

/-- The white space after a scalar does not belong to it. -/
def stop (text : List Char) (gap : Gap) (rest : List Char) (p : Position) : Result :=
  ⟨text.reverse, ⟨rest, p⟩, gap.isBreaks⟩

/-- Whether a character that follows white space cannot belong to a scalar. -/
def endsAfterGap (flow : Bool) (floor : Nat) (s : List Char) (p : Position) : Bool :=
  (p.column = 0 && atMarker s) || s.head? = some '#' || (!flow && p.column < floor)

/-- Whether a visible character ends a scalar. -/
def endsAt (flow : Bool) (c : Char) (rest : List Char) : Bool :=
  (c = ':' && atSpace rest) || (flow && (c = ',' || isBracket c))

/-- Whether a colon is followed by an indicator of flow collections, which is refused there. -/
def isStrayColon (flow : Bool) (c : Char) (rest : List Char) : Bool :=
  flow && c = ':' && rest.head?.any fun d => d = ',' || d = '?' || isBracket d

/-- Read on, after the characters in `text`, the last one first, and a gap. Lines that belong to
the scalar have at least `floor` columns before them, unless it stands in a flow collection. -/
def readFrom (flow : Bool) (floor : Nat) (text : List Char) (gap : Gap) (p : Position) :
    List Char → Option Result
  | [] => some (stop text gap [] p)
  | c :: rest =>
    if isBreak c then readFrom flow floor text (gap.addBreak c) p.nextLine rest
    else if isBlank c then
      if c = '\t' && gap.isBreaks && p.column < floor then none
      else readFrom flow floor text (gap.addBlank c) p.next rest
    else if !gap.isNone && endsAfterGap flow floor (c :: rest) p then
      some (stop text gap (c :: rest) p)
    else if isStrayColon flow c rest then none
    else if endsAt flow c rest then some (stop text gap (c :: rest) p)
    else readFrom flow floor (c :: (gap.reverseText ++ text)) .none p.next rest

/-- Read a plain scalar. -/
def read? (flow : Bool) (floor : Nat) (c : Cursor) : Option Result :=
  readFrom flow floor [] .none c.position c.rest

end Keyring.Yaml.Plain
