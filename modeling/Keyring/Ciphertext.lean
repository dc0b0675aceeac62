import Keyring.Error
import Keyring.Json.StringLiteral
import Keyring.Text.Base64
import Keyring.Text.Quoted
import Keyring.Text.Utf8

/-!
# Ciphertexts

A ciphertext is an encrypted secret together with the name of the master key that encrypted it.
Its record is a JSON object of two strings, the name and the bytes in base64.

Reading is strict about unknown and repeated members and about what follows the record, but takes
the members in any order, an array of at most two strings in place of the object, and an empty
string in place of a missing part. A ciphertext without key name is refused.
-/

namespace Keyring

/-- An encrypted secret. -/
structure Ciphertext where
  /-- The name of the master key. -/
  key : String
  /-- The encrypted bytes. -/
  bytes : List UInt8
  deriving DecidableEq, Repr, Inhabited

namespace Ciphertext

/-- The largest number of bytes in a record (10 MiB). -/
def maxRecordSize : Nat := 10 * Nat.pow 2 20

/-- Why bytes are no ciphertext record. Callers see all of them as one error. -/
inductive Fault where
  /-- The record is too large. -/
  | tooLarge
  /-- The record is not an object or array of the right shape. -/
  | notARecord
  /-- The record names no master key. -/
  | missingKey
  /-- The bytes are not base64. -/
  | notBase64
  deriving DecidableEq, Repr

/-- The text of a record. -/
def render (c : Ciphertext) : List Char :=
  "\x7b\"key\":".toList ++ Json.StringLiteral.encode c.key.toList ++ ",\"bytes\":\"".toList ++
    Text.Base64.encode c.bytes ++ "\"\x7d".toList

/-- The text of a record, as a string. -/
def display (c : Ciphertext) : String := String.ofList c.render

/-- The bytes of a record. -/
def toRecord (c : Ciphertext) : List UInt8 := Text.Utf8.encode c.render

/-- The form for debugging, which shows the number of bytes only. -/
def debug (c : Ciphertext) : String :=
  "Ciphertext \x7b key: " ++ Text.Quoted.string c.key ++ ", bytes: [" ++
    toString c.bytes.length ++ " bytes] \x7d"

/-- The two parts of a record. -/
inductive Part where
  /-- The name of the master key. -/
  | key
  /-- The encrypted bytes. -/
  | bytes
  deriving DecidableEq, Repr

/-- The parts of a record as read: texts, empty where missing. -/
structure Parts where
  /-- The name of the master key. -/
  key : List Char := []
  /-- The bytes in base64. -/
  bytes : List Char := []
  deriving DecidableEq, Repr

/-- The part that a member name stands for. -/
def Part.ofName? (name : List Char) : Option Part :=
  if name = "key".toList then some .key
  else if name = "bytes".toList then some .bytes
  else none

/-- Put a text in the place of a part. -/
def Parts.set (p : Parts) : Part → List Char → Parts
  | .key, text => { p with key := text }
  | .bytes, text => { p with bytes := text }

/-- Read a member at the front of a text: a known name, a colon and a string. -/
def member? (s : List Char) : Option (Part × List Char × List Char) := do
  let (name, rest) ← Json.StringLiteral.parse? s
  let part ← Part.ofName? name
  match Json.skipSpace rest with
  | ':' :: rest =>
    let (text, rest) ← Json.StringLiteral.parse? (Json.skipSpace rest)
    return (part, text, Json.skipSpace rest)
  | _ => none

/-- Read the inside of an object and its closing brace. -/
def object? (s : List Char) : Option (Parts × List Char) :=
  match s with
  | '\x7d' :: rest => some (({} : Parts), rest)
  | _ => do
    let (part, text, rest) ← member? s
    match rest with
    | '\x7d' :: rest => return (({} : Parts).set part text, rest)
    | ',' :: rest =>
      let (part', text', rest) ← member? (Json.skipSpace rest)
      match rest with
      | '\x7d' :: rest =>
        if part = part' then none else return ((({} : Parts).set part text).set part' text', rest)
      | _ => none
    | _ => none

/-- Read the inside of an array and its closing bracket. -/
def array? (s : List Char) : Option (Parts × List Char) :=
  match s with
  | ']' :: rest => some (({} : Parts), rest)
  | _ => do
    let (key, rest) ← Json.StringLiteral.parse? s
    match Json.skipSpace rest with
    | ']' :: rest => return ({ key }, rest)
    | ',' :: rest =>
      let (bytes, rest) ← Json.StringLiteral.parse? (Json.skipSpace rest)
      match Json.skipSpace rest with
      | ']' :: rest => return ({ key, bytes }, rest)
      | _ => none
    | _ => none

/-- Read a whole record. -/
def parts? (s : List Char) : Option Parts := do
  let (parts, rest) ←
    match Json.skipSpace s with
    | '\x7b' :: rest => object? (Json.skipSpace rest)
    | '[' :: rest => array? (Json.skipSpace rest)
    | _ => none
  if Json.skipSpace rest = [] then some parts else none

/-- Read a record. -/
def decode (record : List UInt8) : Except Fault Ciphertext :=
  if maxRecordSize < record.length then .error .tooLarge
  else
    match (Text.Utf8.decode? record).bind parts? with
    | none => .error .notARecord
    | some parts =>
      if parts.key = [] then .error .missingKey
      else
        match Text.Base64.decode? parts.bytes with
        | none => .error .notBase64
        | some bytes => .ok ⟨String.ofList parts.key, bytes⟩

/-- Read a record; every fault is the same outward error. -/
def ofRecord (record : List UInt8) : Except Error Ciphertext :=
  match decode record with
  | .ok c => .ok c
  | .error _ => .error .malformedCiphertext

end Ciphertext

end Keyring
