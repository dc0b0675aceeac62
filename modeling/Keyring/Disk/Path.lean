/-!
# Paths

Paths as text. A path is absolute if it starts with a slash and relative to the current directory
otherwise; repeated slashes and `.` between them mean nothing.
-/

namespace Keyring.Path

/-- The pieces of a text between slashes, empty ones included. -/
def segments : List Char → List (List Char)
  | [] => [[]]
  | c :: rest =>
    if c = '/' then [] :: segments rest
    else
      match segments rest with
      | [] => [[c]]
      | s :: ss => (c :: s) :: ss

/-- The non-empty pieces of a path. -/
def parts (path : String) : List String :=
  ((segments path.toList).filter fun s => s ≠ []).map String.ofList

/-- Whether a path starts at the root. -/
def isAbsolute (path : String) : Bool := path.toList.head? == some '/'

/-- Whether a path ends in a slash, so that it can only name a directory. -/
def endsInSlash (path : String) : Bool := path.toList.getLast? == some '/'

/-- A path below another; an absolute second path stands for itself. -/
def join (dir path : String) : String :=
  if isAbsolute path then path
  else if dir = "" || endsInSlash dir then dir ++ path
  else dir ++ "/" ++ path

/-- Remove what means nothing at the end of a reversed path: slashes, and `.` after a slash. -/
def trimReversed : List Char → List Char
  | '/' :: rest => trimReversed rest
  | '.' :: '/' :: rest => trimReversed ('/' :: rest)
  | path => path

/-- The path without its last part. The root and the empty path have none to remove. -/
def parent? (path : String) : Option String :=
  let body := trimReversed path.toList.reverse
  let absolute := isAbsolute path
  if body = [] then none
  else
    let rest := trimReversed (body.dropWhile (· ≠ '/'))
    if rest = [] then some (if absolute then "/" else "") else some (String.ofList rest.reverse)

/-- Replace a leading `~` that stands alone or before a slash by the home directory. -/
def expandHome (home : Option String) (path : String) : String :=
  match path.toList, home with
  | '~' :: rest, some home =>
    if rest = [] ∨ rest.head? = some '/' then home ++ String.ofList rest else path
  | _, _ => path

end Keyring.Path
