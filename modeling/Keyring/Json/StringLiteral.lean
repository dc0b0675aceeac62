import Keyring.Text.Hex

/-!
# JSON string literals

Strings between double quotes. Writing escapes the quote, the backslash and the control
characters, the five common ones by letter and the rest by number. Reading takes every escape of
the format; a pair of numbers in the surrogate range stands for one character, and a surrogate
without its partner is refused, as is a bare control character.
-/

namespace Keyring.Json

/-- The white space of the format. -/
def isSpace (c : Char) : Bool := c = ' ' || c = '\n' || c = '\t' || c = '\r'

/-- Skip white space. -/
def skipSpace (s : List Char) : List Char := s.dropWhile isSpace

namespace StringLiteral

/-- One character inside a literal. -/
def escape (c : Char) : List Char :=
  if c = '"' then ['\\', '"']
  else if c = '\\' then ['\\', '\\']
  else if c = '\x08' then ['\\', 'b']
  else if c = '\x0c' then ['\\', 'f']
  else if c = '\n' then ['\\', 'n']
  else if c = '\r' then ['\\', 'r']
  else if c = '\t' then ['\\', 't']
  else if c.toNat < 32 then
    ['\\', 'u', '0', '0', Text.Hex.digit (c.toNat / 16), Text.Hex.digit (c.toNat % 16)]
  else [c]

/-- The literal of a text. -/
def encode (s : List Char) : List Char := '"' :: (s.flatMap escape ++ ['"'])

/-- The value of a hexadecimal digit of either case. -/
def value? (c : Char) : Option Nat :=
  if '0' ≤ c ∧ c ≤ '9' then some (c.toNat - 48)
  else if 'a' ≤ c ∧ c ≤ 'f' then some (c.toNat - 87)
  else if 'A' ≤ c ∧ c ≤ 'F' then some (c.toNat - 55)
  else none

/-- The value of four hexadecimal digits. -/
def unit? (a b c d : Char) : Option Nat := do
  let a ← value? a
  let b ← value? b
  let c ← value? c
  let d ← value? d
  return ((a * 16 + b) * 16 + c) * 16 + d

/-- Whether a number is the first half of a surrogate pair. -/
def isLeading (n : Nat) : Bool := 0xd800 ≤ n && n ≤ 0xdbff

/-- Whether a number is the second half of a surrogate pair. -/
def isTrailing (n : Nat) : Bool := 0xdc00 ≤ n && n ≤ 0xdfff

/-- The character of a surrogate pair. -/
def joinPair (leading trailing : Nat) : Char :=
  Char.ofNat (0x10000 + (leading - 0xd800) * 1024 + (trailing - 0xdc00))

/-- The characters that may follow a backslash alone, and what they stand for. -/
def letter? (c : Char) : Option Char :=
  if c = '"' ∨ c = '\\' ∨ c = '/' then some c
  else if c = 'b' then some '\x08'
  else if c = 'f' then some '\x0c'
  else if c = 'n' then some '\n'
  else if c = 'r' then some '\r'
  else if c = 't' then some '\t'
  else none

/-- Read the inside of a literal up to its closing quote, and give the text and what follows it;
`acc` holds the characters read so far, last first. -/
def scan (acc : List Char) : List Char → Option (List Char × List Char)
  | [] => none
  | '"' :: rest => some (acc.reverse, rest)
  | '\\' :: 'u' :: a :: b :: c :: d :: rest =>
    match unit? a b c d with
    | none => none
    | some n =>
      if isTrailing n then none
      else if isLeading n then
        match rest with
        | '\\' :: 'u' :: e :: f :: g :: h :: rest =>
          match unit? e f g h with
          | none => none
          | some m => if isTrailing m then scan (joinPair n m :: acc) rest else none
        | _ => none
      else scan (Char.ofNat n :: acc) rest
  | '\\' :: c :: rest =>
    match letter? c with
    | none => none
    | some c => scan (c :: acc) rest
  | c :: rest => if c.toNat < 32 ∨ c = '\\' then none else scan (c :: acc) rest

/-- Read a literal at the front of a text, and give its text and what follows it. -/
def parse? : List Char → Option (List Char × List Char)
  | '"' :: rest => scan [] rest
  | _ => none

end StringLiteral

end Keyring.Json
