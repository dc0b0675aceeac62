/-!
# Base64

The standard alphabet with padding. Reading is strict: the length is a multiple of four, padding
stands only at the end and is exactly as long as needed, and the bits that the last digits do not
use are zero. So each sequence of bytes has one written form.
-/

namespace Keyring.Text.Base64

/-- The digit of a number below 64. -/
def digit (n : Nat) : Char :=
  if n < 26 then Char.ofNat (65 + n)
  else if n < 52 then Char.ofNat (71 + n)
  else if n < 62 then Char.ofNat (n - 4)
  else if n = 62 then '+'
  else '/'

/-- The value of a digit. -/
def value? (c : Char) : Option Nat :=
  if 'A' ≤ c ∧ c ≤ 'Z' then some (c.toNat - 65)
  else if 'a' ≤ c ∧ c ≤ 'z' then some (c.toNat - 71)
  else if '0' ≤ c ∧ c ≤ '9' then some (c.toNat + 4)
  else if c = '+' then some 62
  else if c = '/' then some 63
  else none

/-- Write the groups of three bytes; `acc` holds the digits written so far, last first. -/
def encodeFrom (acc : List Char) : List UInt8 → List Char
  | a :: b :: c :: rest =>
    let n := (a.toNat * 256 + b.toNat) * 256 + c.toNat
    encodeFrom (digit (n % 64) :: digit (n / 64 % 64) :: digit (n / 4096 % 64) ::
      digit (n / 262144) :: acc) rest
  | [a, b] =>
    let n := (a.toNat * 256 + b.toNat) * 4
    ('=' :: digit (n % 64) :: digit (n / 64 % 64) :: digit (n / 4096) :: acc).reverse
  | [a] =>
    let n := a.toNat * 16
    ('=' :: '=' :: digit (n % 64) :: digit (n / 64) :: acc).reverse
  | [] => acc.reverse

/-- The written form of a sequence of bytes. -/
def encode (bytes : List UInt8) : List Char := encodeFrom [] bytes

/-- Read the last group of four digits, where padding may stand. -/
def decodeLast (a b c d : Char) : Option (List UInt8) := do
  let x ← value? a
  let y ← value? b
  if c = '=' ∧ d = '=' then
    if y % 16 = 0 then some [UInt8.ofNat (x * 4 + y / 16)] else none
  else
    let z ← value? c
    if d = '=' then
      if z % 4 = 0 then
        let n := (x * 64 + y) * 16 + z / 4
        some [UInt8.ofNat (n / 256), UInt8.ofNat (n % 256)]
      else none
    else
      let w ← value? d
      let n := ((x * 64 + y) * 64 + z) * 64 + w
      some [UInt8.ofNat (n / 65536), UInt8.ofNat (n / 256 % 256), UInt8.ofNat (n % 256)]

/-- Read groups of four digits; `acc` holds the bytes read so far, last first. -/
def decodeFrom (acc : List UInt8) : List Char → Option (List UInt8)
  | [] => some acc.reverse
  | [a, b, c, d] => (decodeLast a b c d).map fun last => acc.reverse ++ last
  | a :: b :: c :: d :: rest =>
    match value? a, value? b, value? c, value? d with
    | some x, some y, some z, some w =>
      let n := ((x * 64 + y) * 64 + z) * 64 + w
      decodeFrom (UInt8.ofNat (n % 256) :: UInt8.ofNat (n / 256 % 256) ::
        UInt8.ofNat (n / 65536) :: acc) rest
    | _, _, _, _ => none
  | _ => none

/-- The bytes of a written form. -/
def decode? (text : List Char) : Option (List UInt8) := decodeFrom [] text

end Keyring.Text.Base64
