import Keyring.Error

/-!
# Key names

A key name is stored as one entry of a directory. So it is not empty, fits into a directory
entry, is neither `.` nor `..`, and holds neither path separators nor NUL.
-/

namespace Keyring.KeyName

/-- The largest number of bytes in a name. -/
def maxSize : Nat := 255

/-- Why a text cannot name a key. -/
inductive Fault where
  /-- The text is empty. -/
  | empty
  /-- The text has too many bytes. -/
  | tooLong
  /-- The text names a directory or its parent. -/
  | dots
  /-- The text holds a path separator or NUL. -/
  | separator
  deriving DecidableEq, Repr

/-- The wording of a fault. -/
def Fault.message : Fault → String
  | .empty => "name must not be empty"
  | .tooLong => "name must not exceed " ++ toString maxSize ++ " bytes"
  | .dots => "name must not be '.' or '..'"
  | .separator => "name must not contain path separators or NUL"

/-- Whether a character would leave the directory or end the path. -/
def isSeparator (c : Char) : Bool := c = '/' || c = '\\' || c = '\x00'

/-- What is wrong with a name; of several faults the first in the order of `Fault`. -/
def fault? (name : String) : Option Fault :=
  if name = "" then some .empty
  else if maxSize < name.utf8ByteSize then some .tooLong
  else if name = "." || name = ".." then some .dots
  else if name.toList.any isSeparator then some .separator
  else none

/-- A name that can name a key. -/
def Valid (name : String) : Prop := fault? name = none

instance (name : String) : Decidable (Valid name) := inferInstanceAs (Decidable (_ = _))

/-- Refuse what cannot name a key. -/
def validate (name : String) : Except Error Unit :=
  match fault? name with
  | some fault => .error (.invalidName name fault.message)
  | none => .ok ()

theorem validate_eq_ok_iff {name : String} : validate name = .ok () ↔ Valid name := by
  unfold validate Valid
  split <;> simp_all

end Keyring.KeyName
