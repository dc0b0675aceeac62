import Keyring.Yaml.Character
import Keyring.Yaml.Number
import Keyring.Yaml.Scalar

/-!
# Writing scalars

The written form of a text as the value of a key. A text of several lines becomes a literal block.
A text that would be read as something else goes into single quotes. Any other text is plain if it
can be, else in single quotes if it can be, else in double quotes, which can hold everything.
-/

namespace Keyring.Yaml.ScalarWriter

/-- Whether a character may stand for itself. -/
def isPrintable (c : Char) : Bool :=
  c = '\n' || (' ' ≤ c && c ≤ '~') || ('\u00a0' ≤ c && c ≤ '\ufffd' && c ≠ '\ufeff') ||
    0x10000 ≤ c.toNat

/-- Whether a text holds a character that must be escaped. -/
def hasSpecial (s : List Char) : Bool := s.any fun c => !isPrintable c

/-- Whether a pair of neighbours occurs of which the first passes one test and the second
another. -/
def hasPair (first second : Char → Bool) : List Char → Bool
  | a :: b :: rest => (first a && second b) || hasPair first second (b :: rest)
  | _ => false

/-- Whether a text begins with what would not begin a plain scalar. -/
def hasIndicatorAtStart : List Char → Bool
  | [] => false
  | c :: rest =>
    "#,[]\x7b\x7d&*!|>'\"%@`".toList.contains c || ((c = '?' || c = ':' || c = '-') && atSpace rest)

/-- Whether a text holds what would end a plain scalar: a colon before white space, or a number sign
after it. -/
def hasIndicatorInside (afterSpace : Bool) : List Char → Bool
  | [] => false
  | c :: rest =>
    (c = ':' && atSpace rest) || (c = '#' && afterSpace) ||
      hasIndicatorInside (isBlank c || isBreak c) rest

/-- Whether a text begins with three hyphens or three dots. -/
def beginsLikeMarker (s : List Char) : Bool :=
  "---".toList.isPrefixOf s || "...".toList.isPrefixOf s

/-- Whether a text can be plain. -/
def canBePlain (s : List Char) : Bool :=
  !(hasSpecial s || s.any isBreak || s.head? = some ' ' || s.getLast? = some ' ' ||
    beginsLikeMarker s || hasIndicatorAtStart s || hasIndicatorInside false s)

/-- Whether a text can stand in single quotes: no space may stand beside a line break. -/
def canBeSingle (s : List Char) : Bool :=
  !(hasSpecial s || hasPair (· = ' ') isBreak s || hasPair isBreak (· = ' ') s)

/-- Whether a text can be a block: no line may end in a space. -/
def canBeBlock (s : List Char) : Bool :=
  !(s.isEmpty || hasSpecial s || hasPair (· = ' ') isBreak s || s.getLast? = some ' ')

/-- Whether a plain text would be read as something other than a text, or looks like a number. -/
def isAmbiguous (s : List Char) : Bool :=
  s.isEmpty || isNull s || isTruth s || isWhole s || isDecimal s || hasLeadingZero s

/-- The style in which a text is written. -/
def style (s : List Char) : ScalarStyle :=
  if s.contains '\n' then (if canBeBlock s then .literal else .doubleQuoted)
  else if !isAmbiguous s && canBePlain s then .plain
  else if canBeSingle s then .singleQuoted
  else .doubleQuoted

/-- The upper-case digits of a number in a width, in base sixteen. -/
def hexDigits (n : Nat) : Nat → List Char
  | 0 => []
  | width + 1 =>
    let d := n / Nat.pow 16 width % 16
    Char.ofNat (if d < 10 then 48 + d else 55 + d) :: hexDigits n width

/-- The escape of a character in double quotes. -/
def escape (c : Char) : List Char :=
  match c with
  | '\x00' => ['\\', '0']
  | '\x07' => ['\\', 'a']
  | '\x08' => ['\\', 'b']
  | '\t' => ['\\', 't']
  | '\n' => ['\\', 'n']
  | '\x0b' => ['\\', 'v']
  | '\x0c' => ['\\', 'f']
  | '\r' => ['\\', 'r']
  | '\x1b' => ['\\', 'e']
  | '"' => ['\\', '"']
  | '\\' => ['\\', '\\']
  | '\u0085' => ['\\', 'N']
  | '\u2028' => ['\\', 'L']
  | '\u2029' => ['\\', 'P']
  | c =>
    if c.toNat ≤ 0xff then '\\' :: 'x' :: hexDigits c.toNat 2
    else if c.toNat ≤ 0xffff then '\\' :: 'u' :: hexDigits c.toNat 4
    else '\\' :: 'U' :: hexDigits c.toNat 8

/-- Whether a character is escaped in double quotes. -/
def isEscaped (c : Char) : Bool := !isPrintable c || isBreak c || c = '"' || c = '\\'

/-- A text in double quotes. -/
def double (s : List Char) : List Char :=
  '"' :: s.flatMap (fun c => if isEscaped c then escape c else [c]) ++ ['"']

/-- The inside of a text in single quotes: quotes are doubled, and what follows line breaks is
indented. -/
def singleInside (indent : Nat) (afterBreak : Bool) : List Char → List Char
  | [] => if afterBreak then List.replicate indent ' ' else []
  | c :: rest =>
    if isBreak c then c :: singleInside indent true rest
    else
      (if afterBreak then List.replicate indent ' ' else []) ++
        (if c = '\'' then ['\'', '\''] else [c]) ++ singleInside indent false rest

/-- A text in single quotes. -/
def single (indent : Nat) (s : List Char) : List Char :=
  '\'' :: singleInside indent false s ++ ['\'']

/-- Whether all line breaks at the end of a block count: there are several, or nothing else. -/
def keepsBreaks (s : List Char) : Bool :=
  match s.reverse with
  | a :: b :: _ => isBreak a && isBreak b
  | [a] => isBreak a
  | [] => false

/-- Whether a text ends with a line break. -/
def endsInBreak (s : List Char) : Bool := s.getLast?.any isBreak

/-- The header of a block: the indentation where the first line does not show it, and what becomes
of the line breaks at the end. -/
def blockHeader (s : List Char) : List Char :=
  '|' :: (if s.head?.any fun c => c = ' ' || isBreak c then ['2'] else []) ++
    (if keepsBreaks s then ['+'] else if endsInBreak s then [] else ['-'])

/-- The lines of a block, indented. -/
def blockLines (indent : Nat) (lineStart : Bool) : List Char → List Char
  | [] => []
  | c :: rest =>
    if isBreak c then c :: blockLines indent true rest
    else
      (if lineStart then List.replicate indent ' ' else []) ++ c :: blockLines indent false rest

/-- A text as a literal block. -/
def literal (indent : Nat) (s : List Char) : List Char :=
  blockHeader s ++ '\n' :: blockLines indent true s

/-- The written form of a text whose lines after the first are indented, up to the end of its last
line. -/
def line (indent : Nat) (s : List Char) : List Char :=
  match style s with
  | .literal | .folded => literal indent s ++ if endsInBreak s then [] else ['\n']
  | .plain => s ++ ['\n']
  | .singleQuoted => single indent s ++ ['\n']
  | .doubleQuoted => double s ++ ['\n']

end Keyring.Yaml.ScalarWriter
