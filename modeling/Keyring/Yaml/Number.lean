import Keyring.Text.Digits

/-!
# Numbers in plain scalars

What a plain text may stand for besides itself: whole numbers in four bases, decimal fractions,
truth values and the missing value. A number with leading zeros is a text.
-/

namespace Keyring.Yaml

/-- Whether a text is a number with leading zeros: digits, after at most one sign, of which the
first of several is zero. -/
def hasLeadingZero (s : List Char) : Bool :=
  let body := if s.head? = some '+' || s.head? = some '-' then s.tail else s
  1 < body.length && body.head? = some '0' && body.all Char.isDigit

/-- The whole number after the sign of its base, if there is one. -/
def based? : List Char → Option Nat
  | '0' :: 'x' :: digits => Text.digits? 16 digits
  | '0' :: 'o' :: digits => Text.digits? 8 digits
  | '0' :: 'b' :: digits => Text.digits? 2 digits
  | _ => none

/-- The whole number below a bound that a text stands for; a plus sign may stand before it. -/
def natural? (bound : Nat) (s : List Char) : Option Nat :=
  let body := if s.head? = some '+' then s.tail else s
  ((based? body).orElse fun _ => if hasLeadingZero s then none else Text.digits? 10 body).filter
    (· < bound)

/-- Whether a text stands for a whole number of at most 128 bits. -/
def isWhole (s : List Char) : Bool :=
  match s with
  | '-' :: body =>
    (((based? body).orElse fun _ => if hasLeadingZero s then none else Text.digits? 10 body).filter
      (· ≤ Nat.pow 2 127)).isSome
  | _ => (natural? (Nat.pow 2 128) s).isSome

/-- The digits at the start of a text, and what follows them. -/
def spanDigits (s : List Char) : List Char × List Char :=
  (s.takeWhile Char.isDigit, s.dropWhile Char.isDigit)

/-- The power of ten after a fraction: none, or one of either sign after `e`. -/
def exponent? (s : List Char) : Option Int :=
  match s with
  | [] => some 0
  | e :: rest =>
    if e = 'e' || e = 'E' then
      match rest with
      | '-' :: digits => (Text.digits? 10 digits).map fun n => -n
      | '+' :: digits => (Text.digits? 10 digits).map fun n => n
      | digits => (Text.digits? 10 digits).map fun n => n
    else none

/-- Whether a number of so many tenths is finite in double precision: whether it is below the middle
between the greatest finite number and the power of two after it. -/
def isFinite (mantissa : Nat) (exponent : Int) : Bool :=
  let bound := Nat.pow 2 1024 - Nat.pow 2 970
  if mantissa = 0 then true
  else if 0 ≤ exponent then
    if 309 < exponent then false else mantissa * Nat.pow 10 exponent.toNat < bound
  else
    mantissa < bound ||
      mantissa < bound * Nat.pow 10 (min (-exponent).toNat (Nat.log2 mantissa))

/-- Whether a text without sign stands for a finite number in decimals. -/
def isUnsignedDecimal (s : List Char) : Bool :=
  let (whole, rest) := spanDigits s
  let (fraction, rest) :=
    match rest with
    | '.' :: rest => spanDigits rest
    | _ => ([], rest)
  if whole = [] && fraction = [] then false
  else
    match exponent? rest, Text.digits? 10 (whole ++ fraction) with
    | some e, some mantissa => isFinite mantissa (e - fraction.length)
    | _, _ => false

/-- Whether a text stands for a number in decimals, infinity or no number. -/
def isDecimal (s : List Char) : Bool :=
  let body := if s.head? = some '+' then s.tail else s
  if [".inf".toList, ".Inf".toList, ".INF".toList].contains body then true
  else if ["-.inf".toList, "-.Inf".toList, "-.INF".toList, ".nan".toList, ".NaN".toList,
      ".NAN".toList].contains s then true
  else
    match s with
    | '-' :: rest => isUnsignedDecimal rest
    | _ => isUnsignedDecimal body

/-- Whether a text stands for the missing value. -/
def isNull (s : List Char) : Bool :=
  ["null".toList, "Null".toList, "NULL".toList, "~".toList].contains s

/-- Whether a text stands for a truth value. -/
def isTruth (s : List Char) : Bool :=
  ["true".toList, "True".toList, "TRUE".toList, "false".toList, "False".toList,
    "FALSE".toList].contains s

end Keyring.Yaml
