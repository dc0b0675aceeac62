import Keyring.Disk.Path
import Keyring.Error
import Keyring.Text.Blank
import Keyring.Text.Utf8
import Keyring.Time

/-!
# Configuration

What a key store is opened with. Paths are sequences of bytes, as the system has them; where one
is used as text, bytes that are no text are replaced.
-/

namespace Keyring

/-- Where keys are stored. -/
inductive BackendKind where
  /-- One file per key. -/
  | files
  /-- In memory. -/
  | memory
  deriving DecidableEq, Repr

namespace BackendKind

/-- The name of a backend. -/
def name : BackendKind → String
  | files => "fs"
  | memory => "mem"

/-- The backend of a name; each has a short and a long one. -/
def ofName? (name : String) : Option BackendKind :=
  if name = "fs" || name = "filesystem" then some .files
  else if name = "mem" || name = "memory" then some .memory
  else none

/-- The backend of a name in any case, or what to say about another text. -/
def parse (text : String) : Except String BackendKind :=
  let lower := String.ofList (text.toList.map Char.toLower)
  match ofName? lower with
  | some kind => .ok kind
  | none => .error ("unknown backend '" ++ lower ++ "', expected fs or mem")

end BackendKind

/-- How secrets are encrypted. -/
structure Config.Kms where
  /-- The name of the master key. -/
  key : String
  /-- The path of the master key file. -/
  keyFile : List UInt8
  deriving DecidableEq, Repr

/-- A configuration. -/
structure Config where
  /-- Where keys are stored. -/
  backend : BackendKind
  /-- The directory of the key files. -/
  directory : List UInt8
  /-- After how many seconds cached secrets are removed; zero for never. -/
  expirySeconds : UInt64
  /-- After how many seconds without use cached secrets are removed; zero for never. -/
  unusedExpirySeconds : UInt64
  /-- How secrets are encrypted, if they are. -/
  kms : Option Config.Kms
  deriving DecidableEq, Repr

namespace Config

/-- The directory of the key files where none is given. -/
def defaultDirectory : List UInt8 := Text.Utf8.ofString "~/.keyhold/keys"

/-- The configuration where nothing is given. -/
def standard : Config := ⟨.files, defaultDirectory, 0, 0, none⟩

instance : Inhabited Config := ⟨standard⟩

/-- A path as text. -/
def pathText (path : List UInt8) : String := String.ofList (Text.Utf8.decodeLossy path)

/-- The directory of the key files, where a leading `~` is the home directory. -/
def expandedDirectory (c : Config) (home : Option String) : String :=
  Path.expandHome home (pathText c.directory)

/-- A duration in seconds, if it is not zero. -/
def seconds? (n : UInt64) : Option Nat := if n = 0 then none else some n.toNat

/-- After how many seconds cached secrets are removed. -/
def expiry? (c : Config) : Option Nat := seconds? c.expirySeconds

/-- After how many seconds without use cached secrets are removed. -/
def unusedExpiry? (c : Config) : Option Nat := seconds? c.unusedExpirySeconds

/-- What is missing in how secrets are encrypted. -/
def Kms.validate (k : Kms) : Except Error Unit :=
  if Text.trim k.key.toList = [] then .error (.invalidConfig "kms.key must not be empty")
  else if k.keyFile = [] then .error (.invalidConfig "kms.key_file must not be empty")
  else .ok ()

/-- Refuse a configuration from which no key store can be opened. -/
def validate (c : Config) : Except Error Unit :=
  if c.directory = [] then .error (.invalidConfig "store.dir must not be empty")
  else
    match c.kms with
    | none => .ok ()
    | some k => k.validate

end Config

end Keyring
