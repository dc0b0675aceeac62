import Keyring.Disk.Fault

/-!
# Replies of the device

What a program cannot know before it makes a call to the file system: whether the device takes the
call, and how many bytes of a write it takes at once.
-/

namespace Keyring.Disk

/-- How the device takes one call. -/
inductive Reply where
  /-- The call is made; a write stores at most `limit + 1` bytes. -/
  | accept (limit : Nat)
  /-- The call fails and changes nothing. -/
  | refuse (fault : FileFault)
  deriving DecidableEq, Repr

/-- Whether a reply leaves it to the disk to tell what exists. A call that fails because its path
exists, or because it does not, fails by what is stored and not by the device. -/
def Reply.isHonest : Reply → Bool
  | .accept _ => true
  | .refuse .notFound | .refuse .alreadyExists => false
  | .refuse _ => true

end Keyring.Disk
