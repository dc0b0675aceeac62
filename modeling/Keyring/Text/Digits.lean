/-!
# Numbers in digits

Natural numbers written in digits of a base up to sixteen, without a sign.
-/

namespace Keyring.Text

/-- The value of a digit of a base up to sixteen, of either case. -/
def digit? (base : Nat) (c : Char) : Option Nat :=
  let value :=
    if '0' ≤ c && c ≤ '9' then c.toNat - 48
    else if 'a' ≤ c && c ≤ 'f' then c.toNat - 87
    else if 'A' ≤ c && c ≤ 'F' then c.toNat - 55
    else base
  if value < base then some value else none

/-- The value of digits that follow digits of the value `acc`. -/
def digitsFrom (base acc : Nat) : List Char → Option Nat
  | [] => some acc
  | c :: rest =>
    match digit? base c with
    | none => none
    | some x => digitsFrom base (base * acc + x) rest

/-- The number that is written in digits, of which there is at least one. -/
def digits? (base : Nat) (s : List Char) : Option Nat :=
  if s = [] then none else digitsFrom base 0 s

/-- The number that is written in digits if it is below a bound; a plus sign may stand before it. -/
def unsigned? (bound : Nat) (s : List Char) : Option Nat :=
  let body := if s.head? = some '+' then s.tail else s
  (digits? 10 body).filter (· < bound)

end Keyring.Text
