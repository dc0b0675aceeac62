/-!
# File-system faults

Why a call to the file system failed.
-/

namespace Keyring

/-- The cause of a failed file-system call. -/
inductive FileFault where
  /-- A part of the path does not exist. -/
  | notFound
  /-- The path exists already. -/
  | alreadyExists
  /-- A part of the path that should be a directory is not. -/
  | notDirectory
  /-- The path is a directory. -/
  | isDirectory
  /-- The path or one of its parts is too long. -/
  | nameTooLong
  /-- The path holds a NUL character. -/
  | nulInPath
  /-- The path has no parent in which it could be made. -/
  | incompletePath
  /-- The content is not text. -/
  | notText
  /-- The device takes no more data. -/
  | writeRefused
  /-- Some other failure, told in words. -/
  | other (message : String)
  deriving DecidableEq, Repr

/-- The wording of a fault. -/
def FileFault.message : FileFault → String
  | .notFound => "No such file or directory (os error 2)"
  | .alreadyExists => "File exists (os error 17)"
  | .notDirectory => "Not a directory (os error 20)"
  | .isDirectory => "Is a directory (os error 21)"
  | .nameTooLong => "File name too long (os error 36)"
  | .nulInPath => "file name contained an unexpected NUL byte"
  | .incompletePath => "failed to create whole tree"
  | .notText => "stream did not contain valid UTF-8"
  | .writeRefused => "File too large (os error 27)"
  | .other message => message

end Keyring
