import Keyring.Config
import Keyring.Yaml.Document
import Keyring.Yaml.Number

/-!
# Configuration files

A configuration as a YAML document: a mapping of the sections `store`, `cache` and `kms`, which are
mappings again. What is missing has its standard value, except in `kms`, which is whole or missing.
Other members are ignored; a known member that occurs twice is refused. A section that is left out
after its name counts as an empty mapping.

Texts may be scalars of any style. A number is a plain scalar. A backend is named by a scalar, or
by the tag of an empty one.
-/

namespace Keyring.Config

open Yaml (Document Value Tag)

/-- The text of a scalar. -/
def text? (d : Document) (v : Value) : Option (List Char) :=
  match d.resolve v with
  | .scalar _ s => some s.text
  | _ => none

/-- The entries of a section. -/
def entries? (d : Document) (v : Value) : Option (List (Value × Value)) :=
  match d.resolve v with
  | .mapping _ entries => some entries
  | .scalar _ s => if s = .empty then some [] else none
  | _ => none

/-- The members of a section, whose keys are scalars. -/
def members? (d : Document) (v : Value) : Option (List (List Char × Value)) :=
  (entries? d v).bind fun entries =>
    entries.mapM fun e => (text? d e.1).map fun key => (key, e.2)

/-- The value of a member, if there is one. A member that occurs twice is refused. -/
def member? (members : List (List Char × Value)) (name : String) : Option (Option Value) :=
  match members.filter fun m => m.1 = name.toList with
  | [] => some none
  | [m] => some (some m.2)
  | _ => none

/-- What a member says, or the standard value where it is missing. -/
def memberOr? {α : Type} (members : List (List Char × Value)) (name : String) (standard : α)
    (read : Value → Option α) : Option α :=
  match member? members name with
  | none => none
  | some none => some standard
  | some (some value) => read value

/-- What a member says, which may not be missing. -/
def requiredMember? {α : Type} (members : List (List Char × Value)) (name : String)
    (read : Value → Option α) : Option α :=
  (member? members name).join.bind read

/-- A number of seconds: a plain scalar, or a literal one that is tagged as a whole number. -/
def secondsIn? (d : Document) (v : Value) : Option UInt64 :=
  match d.resolve v with
  | .scalar tag s =>
    if s.style = .plain || (s.style = .literal && tag = some Tag.int) then
      (Yaml.natural? (Nat.pow 2 64) s.text).map UInt64.ofNat
    else none
  | _ => none

/-- A backend: its name, or an empty scalar with a tag of its name. -/
def backendIn? (d : Document) (v : Value) : Option BackendKind :=
  match d.resolve v with
  | .scalar tag s =>
    match tag.bind Tag.localName? with
    | some name =>
      if s.style = .plain && (s.text = [] || Yaml.isNull s.text) then BackendKind.ofName? name
      else none
    | none => BackendKind.ofName? (String.ofList s.text)
  | _ => none

/-- A text. -/
def stringIn? (d : Document) (v : Value) : Option String := (text? d v).map String.ofList

/-- A path. -/
def pathIn? (d : Document) (v : Value) : Option (List UInt8) := (text? d v).map Text.Utf8.encode

/-- Whether a value says that a section is missing. The tag of the missing value is refused on
anything else. -/
def isMissing? (d : Document) (v : Value) : Option Bool :=
  match d.resolve v with
  | .scalar tag s =>
    if s.style ≠ .plain then some false
    else
      match tag with
      | none => some (s.text = [] || Yaml.isNull s.text)
      | some tag =>
        if tag = Tag.null then (if Yaml.isNull s.text then some true else none) else some false
  | _ => some false

/-- How secrets are encrypted. -/
def kmsIn? (d : Document) (v : Value) : Option (Option Kms) := do
  if ← isMissing? d v then return none
  else
    let members ← members? d v
    let key ← requiredMember? members "key" (stringIn? d)
    let keyFile ← requiredMember? members "key_file" (pathIn? d)
    return some ⟨key, keyFile⟩

/-- The fields of the section on storage. -/
def storeIn? (d : Document) (v : Value) : Option (BackendKind × List UInt8) := do
  let members ← members? d v
  let backend ← memberOr? members "backend" standard.backend (backendIn? d)
  let directory ← memberOr? members "dir" standard.directory (pathIn? d)
  return (backend, directory)

/-- The fields of the section on the cache. -/
def cacheIn? (d : Document) (v : Value) : Option (UInt64 × UInt64) := do
  let members ← members? d v
  let expiry ← memberOr? members "expiry_secs" standard.expirySeconds (secondsIn? d)
  let unused ← memberOr? members "expiry_unused_secs" standard.unusedExpirySeconds (secondsIn? d)
  return (expiry, unused)

/-- The configuration in a document. -/
def ofDocument? (d : Document) : Option Config := do
  let members ← members? d d.root
  let (backend, directory) ←
    memberOr? members "store" (standard.backend, standard.directory) (storeIn? d)
  let (expirySeconds, unusedExpirySeconds) ←
    memberOr? members "cache" (standard.expirySeconds, standard.unusedExpirySeconds) (cacheIn? d)
  let kms ← memberOr? members "kms" standard.kms (kmsIn? d)
  return ⟨backend, directory, expirySeconds, unusedExpirySeconds, kms⟩

/-- The configuration in the text of a file. -/
def ofText (text : List Char) : Except Error Config :=
  match (Document.parse? text).bind ofDocument? with
  | some c => .ok c
  | none => .error (.yaml "the document is not a configuration")

end Keyring.Config
