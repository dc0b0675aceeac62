import Keyring.Error
import Keyring.Text.Blank
import Keyring.Text.Hex
import Keyring.Text.Utf8

/-!
# Secrets

A secret is one to `Secret.maxSize` bytes of key material. Its canonical form is lower-case
hexadecimal; reading also takes upper-case digits and blanks around them. The printed forms show
at most the length.
-/

namespace Keyring

/-- The largest number of bytes in a secret. -/
def Secret.maxSize : Nat := 4096

/-- Key material. -/
structure Secret where
  /-- The bytes. -/
  bytes : List UInt8
  /-- The empty secret is never valid. -/
  ne_nil : bytes ≠ []
  /-- A secret has a bounded size. -/
  length_le : bytes.length ≤ Secret.maxSize
  deriving DecidableEq

namespace Secret

/-- Why bytes or a text are no secret. -/
inductive Fault where
  /-- The bytes are not text. -/
  | notText
  /-- The text is not hexadecimal. -/
  | notHex (fault : Text.Hex.Fault)
  /-- There are no bytes. -/
  | empty
  /-- There are too many bytes. -/
  | tooLong (size : Nat)
  deriving DecidableEq, Repr

/-- The wording of a fault. -/
def Fault.message : Fault → String
  | .notText => "secret is not valid UTF-8"
  | .notHex fault => fault.message
  | .empty => "secret is empty"
  | .tooLong size =>
    "secret is " ++ toString size ++ " bytes, at most " ++ toString maxSize ++ " are allowed"

/-- The outward error of a fault. -/
def Fault.toError (fault : Fault) : Error := .malformedSecret fault.message

/-- A secret of raw bytes. -/
def ofBytes (bytes : List UInt8) : Except Fault Secret :=
  if h : bytes = [] then .error .empty
  else if h' : bytes.length ≤ maxSize then .ok ⟨bytes, h, h'⟩
  else .error (.tooLong bytes.length)

/-- Read the hexadecimal form; blanks around it are ignored. -/
def parse (text : List Char) : Except Fault Secret :=
  match Text.Hex.decode (Text.Utf8.encode (Text.trim text)) with
  | .error fault => .error (.notHex fault)
  | .ok bytes => ofBytes bytes

/-- Read the hexadecimal form from stored bytes. -/
def ofRecord (record : List UInt8) : Except Fault Secret :=
  match Text.Utf8.decode? record with
  | none => .error .notText
  | some text => parse text

/-- The number of bytes. -/
def size (s : Secret) : Nat := s.bytes.length

/-- The canonical form: lower-case hexadecimal digits. -/
def toHex (s : Secret) : String := Text.Hex.ofBytes s.bytes

/-- The form for readers. -/
def display (_ : Secret) : String := "[REDACTED]"

/-- The form for debugging. -/
def debug (s : Secret) : String := "Secret([REDACTED " ++ toString s.size ++ " bytes])"

/-- Whether raw bytes are a secret is a question of their number alone. -/
theorem ofBytes_eq_ok_iff {bytes : List UInt8} {s : Secret} :
    ofBytes bytes = .ok s ↔ s.bytes = bytes := by
  obtain ⟨b, hne, hle⟩ := s
  unfold ofBytes
  constructor
  · intro h
    split at h
    · cases h
    · split at h
      · cases h; rfl
      · cases h
  · intro h
    subst h
    simp [hne, hle]

@[simp] theorem ofBytes_bytes (s : Secret) : ofBytes s.bytes = .ok s :=
  ofBytes_eq_ok_iff.2 rfl

end Secret

end Keyring
