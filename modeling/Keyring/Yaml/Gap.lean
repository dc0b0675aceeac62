import Keyring.Yaml.Character

/-!
# Gaps in scalars

The white space between two visible characters of a scalar. Blanks within a line stay as they are.
Around line breaks they vanish: a single line feed becomes a space, and of several the first
vanishes; separators stay.
-/

namespace Keyring.Yaml

/-- White space inside a scalar, read so far. -/
inductive Gap where
  /-- No white space. -/
  | none
  /-- Blanks, the last one first. -/
  | blanks (chars : List Char)
  /-- Line breaks: the first, unless it was escaped, and those after it, the last one first. -/
  | breaks (first : Option Char) (more : List Char)
  deriving DecidableEq, Repr

namespace Gap

/-- Whether there is no white space. -/
def isNone : Gap → Bool
  | none => true
  | _ => false

/-- Whether there is a line break. -/
def isBreaks : Gap → Bool
  | breaks _ _ => true
  | _ => false

/-- Add a blank; blanks around line breaks do not count. -/
def addBlank (c : Char) : Gap → Gap
  | none => blanks [c]
  | blanks chars => blanks (c :: chars)
  | breaks first more => breaks first more

/-- Add a line break. -/
def addBreak (c : Char) : Gap → Gap
  | breaks first more => breaks first (c :: more)
  | _ => breaks (some c) []

/-- What a gap stands for, the last character first. -/
def reverseText : Gap → List Char
  | none => []
  | blanks chars => chars
  | breaks (some '\n') [] => [' ']
  | breaks (some '\n') more => more
  | breaks (some c) more => more ++ [c]
  | breaks Option.none more => more

end Gap

end Keyring.Yaml
