/-!
# Blank characters

The characters with the Unicode property White_Space, and the removal of them from the two ends
of a text.
-/

namespace Keyring.Text

/-- The characters with the Unicode property White_Space. -/
def blanks : List Char :=
  ['\u0009', '\u000a', '\u000b', '\u000c', '\u000d', ' ', '\u0085', '\u00a0', '\u1680', '\u2000',
    '\u2001', '\u2002', '\u2003', '\u2004', '\u2005', '\u2006', '\u2007', '\u2008', '\u2009',
    '\u200a', '\u2028', '\u2029', '\u202f', '\u205f', '\u3000']

/-- Whether a character has the Unicode property White_Space. -/
def isBlank (c : Char) : Bool := blanks.contains c

/-- Remove blanks from the front. -/
def trimStart (s : List Char) : List Char := s.dropWhile isBlank

/-- Remove blanks from the end. -/
def trimEnd (s : List Char) : List Char := (s.reverse.dropWhile isBlank).reverse

/-- Remove blanks from both ends. -/
def trim (s : List Char) : List Char := trimEnd (trimStart s)

@[simp] theorem trim_nil : trim [] = [] := rfl

end Keyring.Text
