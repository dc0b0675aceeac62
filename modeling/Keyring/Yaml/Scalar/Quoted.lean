import Keyring.Text.Digits
import Keyring.Yaml.Gap

/-!
# Quoted scalars

Scalars in single quotes, in which a quote is written twice, and in double quotes, in which a
backslash begins an escape. A mark that separates documents may not stand at the start of a line.
-/

namespace Keyring.Yaml.Quoted

/-- Read on to the closing single quote, after the characters in `text`, the last one first, and a
gap. -/
def readSingle (text : List Char) (gap : Gap) (p : Position) :
    List Char → Option (List Char × Cursor)
  | [] => none
  | c :: rest =>
    if isBreak c then readSingle text (gap.addBreak c) p.nextLine rest
    else if isBlank c then readSingle text (gap.addBlank c) p.next rest
    else if p.column = 0 && atMarker (c :: rest) then none
    else if c = '\'' then
      match rest with
      | '\'' :: rest => readSingle ('\'' :: (gap.reverseText ++ text)) .none (p.skip 2) rest
      | _ => some ((gap.reverseText ++ text).reverse, ⟨rest, p.next⟩)
    else readSingle (c :: (gap.reverseText ++ text)) .none p.next rest

/-- The character that an escape of one character stands for. -/
def escape? : Char → Option Char
  | '0' => some '\x00'
  | 'a' => some '\x07'
  | 'b' => some '\x08'
  | 't' => some '\t'
  | '\t' => some '\t'
  | 'n' => some '\n'
  | 'v' => some '\x0b'
  | 'f' => some '\x0c'
  | 'r' => some '\r'
  | 'e' => some '\x1b'
  | ' ' => some ' '
  | '"' => some '"'
  | '/' => some '/'
  | '\\' => some '\\'
  | 'N' => some '\u0085'
  | '_' => some '\u00a0'
  | 'L' => some '\u2028'
  | 'P' => some '\u2029'
  | _ => none

/-- The number of hexadecimal digits in an escape by number. -/
def digits? : Char → Option Nat
  | 'x' => some 2
  | 'u' => some 4
  | 'U' => some 8
  | _ => none

/-- The character of a number. -/
def character? (n : Nat) : Option Char := if n.isValidChar then some (Char.ofNat n) else none

/-- What the next character of a scalar in double quotes is. -/
inductive Mode where
  /-- A character of the text. -/
  | text
  /-- The character after a backslash. -/
  | escape
  /-- One of `left` digits of an escape by number, after digits of the value `value`. -/
  | digits (left value : Nat)
  deriving DecidableEq, Repr

/-- Read on to the closing double quote, after the characters in `text`, the last one first, and a
gap. -/
def readDouble (text : List Char) (gap : Gap) (p : Position) :
    Mode → List Char → Option (List Char × Cursor)
  | _, [] => none
  | .text, c :: rest =>
    if isBreak c then readDouble text (gap.addBreak c) p.nextLine .text rest
    else if isBlank c then readDouble text (gap.addBlank c) p.next .text rest
    else if p.column = 0 && atMarker (c :: rest) then none
    else if c = '"' then some ((gap.reverseText ++ text).reverse, ⟨rest, p.next⟩)
    else if c = '\\' then readDouble (gap.reverseText ++ text) .none p.next .escape rest
    else readDouble (c :: (gap.reverseText ++ text)) .none p.next .text rest
  | .escape, c :: rest =>
    if isBreak c then readDouble text (.breaks none []) p.nextLine .text rest
    else
      match escape? c, digits? c with
      | some x, _ => readDouble (x :: text) .none p.next .text rest
      | none, some left => readDouble text .none p.next (.digits left 0) rest
      | none, none => none
  | .digits left value, c :: rest =>
    match Text.digit? 16 c with
    | none => none
    | some x =>
      if left ≤ 1 then
        match character? (16 * value + x) with
        | none => none
        | some y => readDouble (y :: text) .none p.next .text rest
      else readDouble text .none p.next (.digits (left - 1) (16 * value + x)) rest

/-- Read a scalar after its opening single quote. -/
def single? (c : Cursor) : Option (List Char × Cursor) := readSingle [] .none c.position c.rest

/-- Read a scalar after its opening double quote. -/
def double? (c : Cursor) : Option (List Char × Cursor) :=
  readDouble [] .none c.position .text c.rest

end Keyring.Yaml.Quoted
