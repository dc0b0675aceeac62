import Keyring.Config
import Keyring.Text.Digits

/-!
# The environment

Variables of the environment override what a configuration file says, each one field. A variable
whose value is not text counts as unset.
-/

namespace Keyring

/-- The environment of a process. -/
structure Environment where
  /-- The variables; of two of one name the first counts. -/
  entries : List (String × List UInt8)
  /-- The home directory of the account, for a process that is not told one. -/
  accountHome : Option String

namespace Environment

/-- The value of a variable, if it is text. -/
def text? (e : Environment) (name : String) : Option String :=
  (e.entries.lookup name).bind Text.Utf8.toString?

/-- The home directory. -/
def home? (e : Environment) : Option String :=
  match e.entries.lookup "HOME" with
  | none | some [] => e.accountHome
  | some path => some (Config.pathText path)

end Environment

namespace Config

/-- Override a field by the value of a variable, if it is set. -/
def overrideBy (c : Config) (value? : Option String)
    (change : Config → String → Except Error Config) : Except Error Config :=
  match value? with
  | none => .ok c
  | some value => change c value

/-- Override the backend. -/
def withBackend (c : Config) (value : String) : Except Error Config :=
  match BackendKind.parse value with
  | .ok backend => .ok { c with backend }
  | .error message => .error (.invalidConfig message)

/-- Override the directory. -/
def withDirectory (c : Config) (value : String) : Except Error Config :=
  .ok { c with directory := Text.Utf8.ofString value }

/-- The number of seconds in the value of a variable. -/
def secondsOf (name value : String) : Except Error UInt64 :=
  match Text.unsigned? (Nat.pow 2 64) value.toList with
  | some n => .ok (UInt64.ofNat n)
  | none => .error (.invalidConfig (name ++ " must be a valid number"))

/-- Override the expiry. -/
def withExpiry (c : Config) (value : String) : Except Error Config :=
  match secondsOf "KEYHOLD_CACHE_EXPIRY_SECS" value with
  | .ok expirySeconds => .ok { c with expirySeconds }
  | .error error => .error error

/-- Override the expiry without use. -/
def withUnusedExpiry (c : Config) (value : String) : Except Error Config :=
  match secondsOf "KEYHOLD_CACHE_EXPIRY_UNUSED_SECS" value with
  | .ok unusedExpirySeconds => .ok { c with unusedExpirySeconds }
  | .error error => .error error

/-- Override the master key and its file. Either brings the section into being, with the other
part empty. -/
def withKms (c : Config) (key keyFile : Option String) : Config :=
  if key.isNone && keyFile.isNone then c
  else
    let k := c.kms.getD ⟨"", []⟩
    { c with kms := some ⟨key.getD k.key, (keyFile.map Text.Utf8.ofString).getD k.keyFile⟩ }

/-- Override all fields that the environment tells. -/
def override (e : Environment) (c : Config) : Except Error Config := do
  let c ← c.overrideBy (e.text? "KEYHOLD_STORE_BACKEND") withBackend
  let c ← c.overrideBy (e.text? "KEYHOLD_STORE_DIR") withDirectory
  let c ← c.overrideBy (e.text? "KEYHOLD_CACHE_EXPIRY_SECS") withExpiry
  let c ← c.overrideBy (e.text? "KEYHOLD_CACHE_EXPIRY_UNUSED_SECS") withUnusedExpiry
  return c.withKms (e.text? "KEYHOLD_KMS_KEY") (e.text? "KEYHOLD_KMS_KEY_FILE")

end Config

end Keyring
