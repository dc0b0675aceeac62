import Keyring.Text.Digits
import Keyring.Text.Utf8
import Keyring.Yaml.Character

/-!
# Tags

A tag says what kind of value a node is. It is written in full between angle brackets, or as a
handle and a suffix, where directives at the head of the document say what the handles stand for.
Octets may be escaped, so a tag is a sequence of bytes.
-/

namespace Keyring.Yaml

/-- A tag in full. -/
abbrev Tag := List UInt8

namespace Tag

/-- The tag of the missing value. -/
def null : Tag := Text.Utf8.ofString "tag:yaml.org,2002:null"

/-- The tag of whole numbers. -/
def int : Tag := Text.Utf8.ofString "tag:yaml.org,2002:int"

/-- The name in a local tag: what follows its exclamation mark. -/
def localName? (tag : Tag) : Option String :=
  match tag with
  | 33 :: name => if name = [] then none else Text.Utf8.toString? name
  | _ => none

/-- A handle and what it stands for. -/
structure Handle where
  /-- The handle. -/
  name : List Char
  /-- The start of the tags with this handle. -/
  start : List UInt8
  deriving DecidableEq, Repr

/-- The handles that need no directive. -/
def standard : List Handle :=
  [⟨['!'], Text.Utf8.ofString "!"⟩, ⟨['!', '!'], Text.Utf8.ofString "tag:yaml.org,2002:"⟩]

/-- A tag as it is written. -/
inductive Written where
  /-- A tag in full. -/
  | full (tag : Tag)
  /-- A handle and the rest of the tag. -/
  | short (handle : List Char) (rest : List UInt8)
  deriving DecidableEq, Repr

/-- The tag that is meant, if its handle is known. -/
def Written.resolve? (handles : List Handle) : Written → Option Tag
  | .full tag => some tag
  | .short handle rest =>
    (handles.find? fun h => h.name = handle).map fun h => h.start ++ rest

/-- Whether a character may stand in a tag; some only where the tag is written in full. -/
def isTagChar (full : Bool) (c : Char) : Bool :=
  isNameChar c || ";/?:@&=+$.%!~*'()".toList.contains c || (full && ",[]".toList.contains c)

/-- The number of escaped octets in the escape of a character that begins with an octet. -/
def octets? (n : Nat) : Option Nat :=
  if n < 0x80 then some 1
  else if 0xc0 ≤ n && n < 0xe0 then some 2
  else if 0xe0 ≤ n && n < 0xf0 then some 3
  else if 0xf0 ≤ n && n < 0xf8 then some 4
  else none

/-- Read the characters of a tag after the bytes in `tag`, the last one first; `left` octets are
still to come in an escaped character. -/
def readFrom (full : Bool) (tag : List UInt8) (left : Nat) (p : Position) :
    List Char → Option (List UInt8 × Cursor)
  | '%' :: a :: b :: rest =>
    match Text.digit? 16 a, Text.digit? 16 b with
    | some x, some y =>
      let n := 16 * x + y
      if left = 0 then
        match octets? n with
        | none => none
        | some count => readFrom full (UInt8.ofNat n :: tag) (count - 1) (p.skip 3) rest
      else if 0x80 ≤ n && n < 0xc0 then
        readFrom full (UInt8.ofNat n :: tag) (left - 1) (p.skip 3) rest
      else none
    | _, _ => none
  | c :: rest =>
    if left ≠ 0 || c = '%' then none
    else if isTagChar full c then
      readFrom full ((String.utf8EncodeChar c).reverse ++ tag) 0 p.next rest
    else some (tag.reverse, ⟨c :: rest, p⟩)
  | [] => if left = 0 then some (tag.reverse, ⟨[], p⟩) else none

/-- Read characters of a tag, at least one. -/
def characters? (full : Bool) (c : Cursor) : Option (List UInt8 × Cursor) := do
  let (tag, c) ← readFrom full [] 0 c.position c.rest
  if tag = [] then none else some (tag, c)

/-- Read what begins a tag: an exclamation mark, name characters and maybe a second mark. Tells
whether the second mark is there. -/
def handle? (c : Cursor) : Option (List Char × Bool × Cursor) :=
  match c.rest with
  | '!' :: rest =>
    let name := rest.takeWhile isNameChar
    if (rest.drop name.length).head? = some '!' then
      some ('!' :: name ++ ['!'], true, c.skip (name.length + 2))
    else some ('!' :: name, false, c.skip (name.length + 1))
  | _ => none

/-- Read a tag before a node. -/
def read? (flow : Bool) (c : Cursor) : Option (Written × Cursor) := do
  let (tag, c) ←
    match c.rest with
    | '!' :: '<' :: _ => do
      let (tag, c) ← characters? true (c.skip 2)
      if c.rest.head? = some '>' then some (Written.full tag, c.skip 1) else none
    | _ => do
      let (handle, closed, c) ← handle? c
      if closed then
        let (rest, c) ← characters? false c
        some (Written.short handle rest, c)
      else
        let (more, c) ← readFrom false [] 0 c.position c.rest
        let rest := Text.Utf8.encode handle.tail ++ more
        some (if rest = [] then Written.full (Text.Utf8.ofString "!") else .short ['!'] rest, c)
  if atSpace c.rest || (flow && c.rest.head? = some ',') then some (tag, c) else none

/-- Read the value of a directive that gives a handle its meaning. -/
def directive? (c : Cursor) : Option (Handle × Cursor) := do
  let (name, closed, c) ← handle? c.skipBlanks
  if !closed && name ≠ ['!'] then none
  else if !c.rest.head?.any isBlank then none
  else
    let (start, c) ← characters? true c.skipBlanks
    if atSpace c.rest then some (⟨name, start⟩, c) else none

end Tag

end Keyring.Yaml
