import Keyring.Disk.Fault

/-!
# Errors

The failures that a key store and its configuration report to their callers. Callers branch on
the constructor; `message` is the wording and `status` the code a server answers with.
-/

namespace Keyring

/-- A failure reported to a caller. -/
inductive Error where
  /-- A key is created under a name that is taken. -/
  | keyExists
  /-- A key is read under a name that is free. -/
  | keyNotFound
  /-- A stored ciphertext cannot be read or decrypted. -/
  | keySealed
  /-- A stored or given secret cannot be read. -/
  | malformedSecret (reason : String)
  /-- A ciphertext record cannot be read. -/
  | malformedCiphertext
  /-- A name cannot name a key. -/
  | invalidName (name reason : String)
  /-- Durable storage failed. -/
  | io (fault : FileFault)
  /-- Something failed whose cause is logged and not shown. -/
  | internal (message : String)
  /-- The named configuration file does not exist. -/
  | configNotFound (path : String)
  /-- The configuration cannot be used. -/
  | invalidConfig (message : String)
  /-- The configuration file is no valid document. -/
  | yaml (message : String)
  deriving DecidableEq, Repr

namespace Error

/-- The wording of an error. -/
def message : Error → String
  | keyExists => "key does already exist"
  | keyNotFound => "key does not exist"
  | keySealed => "key is sealed"
  | malformedSecret reason => "secret is malformed: " ++ reason
  | malformedCiphertext => "ciphertext is malformed"
  | invalidName name reason => "invalid key name '" ++ name ++ "': " ++ reason
  | io fault => "IO error: " ++ fault.message
  | internal text => text
  | configNotFound path => "Configuration file not found: " ++ path
  | invalidConfig text => "Invalid configuration: " ++ text
  | yaml text => "YAML parsing error: " ++ text

/-- The HTTP status of an error. -/
def status : Error → Nat
  | keyExists | invalidName _ _ => 400
  | keySealed => 403
  | keyNotFound => 404
  | _ => 500

end Error

end Keyring
