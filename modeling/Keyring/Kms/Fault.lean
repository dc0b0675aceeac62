/-!
# Failures of a key management system

What a key management system may answer in place of a result. A key store never passes these to
its callers.
-/

namespace Keyring

/-- A failure of a key management system. -/
inductive KmsFault where
  /-- There is no such master key. -/
  | keyNotFound (key : String)
  /-- The master key is disabled. -/
  | keyDisabled (key : String)
  /-- The master key cannot be reached. -/
  | keyUnavailable (key : String)
  /-- The master key does not serve this operation. -/
  | invalidKeyUsage (key : String)
  /-- The ciphertext has been changed. -/
  | notAuthentic
  /-- The ciphertext belongs to another master key. -/
  | incorrectKey (key : String)
  /-- Some other failure, told in words. -/
  | other (message : String)
  deriving DecidableEq

/-- The wording of a failure. -/
def KmsFault.message : KmsFault → String
  | .keyNotFound key => "master key '" ++ key ++ "' does not exist"
  | .keyDisabled key => "master key '" ++ key ++ "' is disabled"
  | .keyUnavailable key => "master key '" ++ key ++ "' is not available"
  | .invalidKeyUsage key => "master key '" ++ key ++ "' cannot be used for this operation"
  | .notAuthentic => "ciphertext is not authentic"
  | .incorrectKey key => "ciphertext was not encrypted with master key '" ++ key ++ "'"
  | .other message => message

end Keyring
