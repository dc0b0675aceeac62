import Keyring.Text.Quoted

/-!
# Hexadecimal text

Bytes as pairs of hexadecimal digits. Writing uses lower-case digits; reading takes either case,
and refuses a text of odd length before it looks at any digit.
-/

namespace Keyring.Text.Hex

/-- Why a text is not hexadecimal. -/
inductive Fault where
  /-- The number of bytes is odd. -/
  | oddLength
  /-- A byte is no hexadecimal digit. -/
  | invalidDigit (byte : UInt8) (position : Nat)
  deriving DecidableEq, Repr

/-- The wording of a fault; the byte is shown as the character of that number. -/
def Fault.message : Fault → String
  | .oddLength => "Odd number of digits"
  | .invalidDigit byte position =>
    "Invalid character " ++ Quoted.char (Char.ofNat byte.toNat) ++ " at position " ++
      toString position

/-- The lower-case digit of a number below sixteen. -/
def digit (n : Nat) : Char :=
  Char.ofNat (if n < 10 then 48 + n else 87 + n)

/-- The two digits of a byte. -/
def encodeByte (b : UInt8) : List Char := [digit (b.toNat / 16), digit (b.toNat % 16)]

/-- The digits of a sequence of bytes. -/
def encode (bytes : List UInt8) : List Char := bytes.flatMap encodeByte

/-- The digits of a sequence of bytes, as a string. -/
def ofBytes (bytes : List UInt8) : String := String.ofList (encode bytes)

/-- The value of a digit of either case. -/
def value? (b : UInt8) : Option Nat :=
  if 48 ≤ b && b ≤ 57 then some (b.toNat - 48)
  else if 97 ≤ b && b ≤ 102 then some (b.toNat - 87)
  else if 65 ≤ b && b ≤ 70 then some (b.toNat - 55)
  else none

/-- Read pairs of digits from a position on; `acc` holds the bytes read so far, last first. -/
def decodeFrom (position : Nat) (acc : List UInt8) : List UInt8 → Except Fault (List UInt8)
  | a :: b :: rest =>
    match value? a with
    | none => .error (.invalidDigit a position)
    | some x =>
      match value? b with
      | none => .error (.invalidDigit b (position + 1))
      | some y => decodeFrom (position + 2) (UInt8.ofNat (16 * x + y) :: acc) rest
  | _ => .ok acc.reverse

/-- Read hexadecimal text, given by its bytes. -/
def decode (text : List UInt8) : Except Fault (List UInt8) :=
  if text.length % 2 = 0 then decodeFrom 0 [] text else .error .oddLength

@[simp] theorem encode_nil : encode [] = [] := rfl

theorem encode_cons (b : UInt8) (bytes : List UInt8) :
    encode (b :: bytes) = encodeByte b ++ encode bytes := rfl

@[simp] theorem length_encode (bytes : List UInt8) : (encode bytes).length = 2 * bytes.length := by
  induction bytes with
  | nil => rfl
  | cons b bytes ih => simp [encode_cons, encodeByte, ih]; omega

end Keyring.Text.Hex
