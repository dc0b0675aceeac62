import Keyring.Text.Printable

/-!
# Quoted text

Characters and strings between quotes, with escapes for what a reader could not see. The escapes
are `\0`, `\t`, `\n`, `\r`, the backslash, the quote in use, and `\u` with the hexadecimal number
between braces for everything else that is not printable.
-/

namespace Keyring.Text.Quoted

/-- The escape by number. -/
def byNumber (c : Char) : List Char :=
  ['\\', 'u', '\x7b'] ++ Nat.toDigits 16 c.toNat ++ ['\x7d']

/-- One character between quotes of the given kind. -/
def escape (quote c : Char) : List Char :=
  if c = '\x00' then ['\\', '0']
  else if c = '\t' then ['\\', 't']
  else if c = '\n' then ['\\', 'n']
  else if c = '\r' then ['\\', 'r']
  else if c = '\\' then ['\\', '\\']
  else if c = quote then ['\\', c]
  else if isPrintable c then [c]
  else byNumber c

/-- A character between single quotes. -/
def char (c : Char) : String := String.ofList (['\''] ++ escape '\'' c ++ ['\''])

/-- A string between double quotes. -/
def string (s : String) : String := String.ofList (['"'] ++ s.toList.flatMap (escape '"') ++ ['"'])

end Keyring.Text.Quoted
