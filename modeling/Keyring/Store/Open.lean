import Keyring.Config
import Keyring.KeyFile
import Keyring.Kms.MasterKeys
import Keyring.Store

/-!
# Opening a key store

A configuration decides the backend and the expiries. With a master key in it, its key file is
loaded first, and every secret is encrypted under that key.
-/

namespace Keyring

namespace Config

/-- The master keys that a configuration asks for. -/
def masterKeys (c : Config) (disk : Disk) (home : Option String) : Except Error MasterKeys :=
  match c.kms with
  | none => .ok .empty
  | some kms =>
    match KeyFile.load disk home (pathText kms.keyFile) with
    | .error error => .error error
    | .ok material => .ok (MasterKeys.empty.withKey kms.key material)

/-- What a store is set up with under a configuration. -/
def settings (c : Config) (home : Option String) : Store.Settings where
  backend :=
    match c.backend with
    | .files => .files (c.expandedDirectory home)
    | .memory => .memory
  expiry := c.expirySeconds.toNat * Time.second
  unusedExpiry := c.unusedExpirySeconds.toNat * Time.second
  masterKey := c.kms.map Kms.key
  sink := .process

end Config

/-- Open the store that a configuration describes, together with the master keys for it. -/
def Store.open (c : Config) (disk : Disk) (home : Option String) (now : Nat) :
    Except Error (Store × MasterKeys) :=
  match c.masterKeys disk home with
  | .error error => .error error
  | .ok keys => .ok (Store.new (c.settings home) disk now, keys)

end Keyring
