import Keyring.Data.FiniteMap
import Keyring.Disk.Fault
import Keyring.Disk.Path

/-!
# Disks

A file system as a value: directories and files with permission bits, without links. Each
operation is one call to the file system, and either fails with a cause and changes nothing or
gives the disk after it; only `makeDirectories`, which makes several calls, may fail half-way.

A path is resolved part by part from the root or the current directory: every part but the last
has to be an existing directory.
-/

namespace Keyring

/-- A place on a disk: the names on the way from the root. -/
abbrev Location := List String

/-- What stands at a place. -/
inductive Node where
  /-- A directory with its permission bits. -/
  | directory (mode : Nat)
  /-- A file with its permission bits and content. -/
  | file (mode : Nat) (content : List UInt8)
  deriving DecidableEq

namespace Node

/-- Whether a node is a directory. -/
def isDirectory : Node → Bool
  | directory _ => true
  | file _ _ => false

/-- The permission bits. -/
def mode : Node → Nat
  | directory mode => mode
  | file mode _ => mode

end Node

/-- A file system, the current directory in it, and the permission bits that new entries lose. -/
structure Disk where
  /-- The current directory. -/
  current : Location
  /-- The permission bits that a new entry does not get. -/
  umask : Nat
  /-- All entries but the root. -/
  nodes : FiniteMap Location Node

/-- Where a path leads. -/
inductive Target where
  /-- To a directory that is known to exist, through the root or dots. -/
  | directory (location : Location)
  /-- To an entry of a directory, which may exist or not; `slash` says that the path ends in a
  slash. -/
  | entry (parent : Location) (name : String) (slash : Bool)
  deriving DecidableEq

/-- The place that a path leads to. -/
def Target.location : Target → Location
  | directory location => location
  | entry parent name _ => parent ++ [name]

namespace Disk

/-- The largest number of bytes in a part of a path. -/
def maxPartSize : Nat := 255

/-- The number of bytes from which a path is too long. -/
def maxPathSize : Nat := 4096

/-- A disk with the root, a current directory and the directories that lead to it. -/
def empty (current : Location) (umask : Nat) : Disk where
  current
  umask
  nodes := .ofList (((List.range current.length).map fun n =>
    (current.take (n + 1), Node.directory 0o755)))

/-- What stands at a place. -/
def find? (d : Disk) (location : Location) : Option Node :=
  if location = [] then some (.directory 0o755) else d.nodes.find? location

/-- Put a node at a place. -/
def put (d : Disk) (location : Location) (node : Node) : Disk :=
  { d with nodes := d.nodes.insert location node }

/-- Remove what stands at a place. -/
def erase (d : Disk) (location : Location) : Disk :=
  { d with nodes := d.nodes.erase location }

/-- The permission bits that a new entry gets. -/
def newMode (d : Disk) (mode : Nat) : Nat := mode - (mode &&& d.umask)

/-- Step from a directory to one below or above it. -/
def enter (d : Disk) (location : Location) (part : String) : Except FileFault Location :=
  if part = "." then .ok location
  else if part = ".." then .ok location.dropLast
  else if maxPartSize < part.utf8ByteSize then .error .nameTooLong
  else
    match d.find? (location ++ [part]) with
    | none => .error .notFound
    | some (.file _ _) => .error .notDirectory
    | some (.directory _) => .ok (location ++ [part])

/-- Follow the parts of a path. -/
def walk (d : Disk) (location : Location) (slash : Bool) : List String → Except FileFault Target
  | [] => .ok (.directory location)
  | [part] =>
    if part = "." ∨ part = ".." then (d.enter location part).map .directory
    else if maxPartSize < part.utf8ByteSize then .error .nameTooLong
    else .ok (.entry location part slash)
  | part :: parts =>
    match d.enter location part with
    | .error fault => .error fault
    | .ok location => d.walk location slash parts

/-- Where a path leads. -/
def locate (d : Disk) (path : String) : Except FileFault Target :=
  if path.toList.contains '\x00' then .error .nulInPath
  else if path = "" then .error .notFound
  else if maxPathSize ≤ path.utf8ByteSize then .error .nameTooLong
  else
    d.walk (if Path.isAbsolute path then [] else d.current) (Path.endsInSlash path)
      (Path.parts path)

/-- What stands at a path. -/
def status (d : Disk) (path : String) : Except FileFault Node :=
  match d.locate path with
  | .error fault => .error fault
  | .ok target =>
    match target, d.find? target.location with
    | _, none => .error .notFound
    | .entry _ _ true, some (.file _ _) => .error .notDirectory
    | _, some node => .ok node

/-- Whether something stands at a path. -/
def pathExists (d : Disk) (path : String) : Bool := (d.status path).toBool

/-- Whether a directory stands at a path. -/
def isDirectory (d : Disk) (path : String) : Bool :=
  match d.status path with
  | .ok node => node.isDirectory
  | .error _ => false

/-- Make a directory. -/
def makeDirectory (d : Disk) (path : String) (mode : Nat) : Except FileFault Disk :=
  match d.locate path with
  | .error fault => .error fault
  | .ok (.directory _) => .error .alreadyExists
  | .ok (.entry parent name _) =>
    match d.find? (parent ++ [name]) with
    | some _ => .error .alreadyExists
    | none => .ok (d.put (parent ++ [name]) (.directory (d.newMode mode)))

/-- Make a directory; one that exists already is kept. -/
def ensureDirectory (d : Disk) (path : String) (mode : Nat) : Except FileFault Disk :=
  match d.makeDirectory path mode with
  | .ok d => .ok d
  | .error fault => if d.isDirectory path then .ok d else .error fault

/-- Make a directory and, where they are missing, the directories above it; `fuel` bounds the
number of directories on the way. -/
def makeDirectoriesWithin (path : String) (mode : Nat) :
    Nat → Disk → Disk × Except FileFault Unit
  | 0, d => (d, .error .incompletePath)
  | fuel + 1, d =>
    if path = "" then (d, .ok ())
    else
      match d.ensureDirectory path mode, Path.parent? path with
      | .ok d, _ => (d, .ok ())
      | .error .notFound, none => (d, .error .incompletePath)
      | .error .notFound, some parent =>
        match makeDirectoriesWithin parent mode fuel d with
        | (d, .error fault) => (d, .error fault)
        | (d, .ok ()) =>
          match d.ensureDirectory path mode with
          | .ok d => (d, .ok ())
          | .error fault => (d, .error fault)
      | .error fault, _ => (d, .error fault)

/-- Make a directory and, where they are missing, the directories above it. A directory that
exists already is kept; those made before a failure stay. -/
def makeDirectories (d : Disk) (path : String) (mode : Nat) : Disk × Except FileFault Unit :=
  makeDirectoriesWithin path mode (path.length + 1) d

/-- Open a new, empty file; fail if the path exists. -/
def createNew (d : Disk) (path : String) (mode : Nat) : Except FileFault Disk :=
  match d.locate path with
  | .error fault => .error fault
  | .ok (.directory _) => .error .alreadyExists
  | .ok (.entry parent name slash) =>
    match d.find? (parent ++ [name]) with
    | some _ => .error .alreadyExists
    | none =>
      if slash then .error .isDirectory
      else .ok (d.put (parent ++ [name]) (.file (d.newMode mode) []))

/-- Open a file for writing: an existing one is emptied and keeps its permission bits, a missing
one is made. -/
def createOrTruncate (d : Disk) (path : String) (mode : Nat) : Except FileFault Disk :=
  match d.locate path with
  | .error fault => .error fault
  | .ok (.directory _) => .error .isDirectory
  | .ok (.entry parent name slash) =>
    match d.find? (parent ++ [name]) with
    | some (.directory _) => .error .isDirectory
    | some (.file mode _) =>
      if slash then .error .notDirectory else .ok (d.put (parent ++ [name]) (.file mode []))
    | none =>
      if slash then .error .isDirectory
      else .ok (d.put (parent ++ [name]) (.file (d.newMode mode) []))

/-- A content with some of its bytes, from an offset on, replaced by others. -/
def overwrite (content : List UInt8) (offset : Nat) (bytes : List UInt8) : List UInt8 :=
  content.take offset ++ List.replicate (offset - content.length) 0 ++ bytes ++
    content.drop (offset + bytes.length)

/-- Write bytes into an open file, from an offset on. -/
def writeAt (d : Disk) (path : String) (offset : Nat) (bytes : List UInt8) :
    Except FileFault Disk :=
  match d.locate path with
  | .error fault => .error fault
  | .ok target =>
    match d.find? target.location with
    | none => .error .notFound
    | some (.directory _) => .error .isDirectory
    | some (.file mode content) =>
      .ok (d.put target.location (.file mode (overwrite content offset bytes)))

/-- Read a file. -/
def read (d : Disk) (path : String) : Except FileFault (List UInt8) :=
  match d.status path with
  | .error fault => .error fault
  | .ok (.directory _) => .error .isDirectory
  | .ok (.file _ content) => .ok content

/-- Remove a file. -/
def remove (d : Disk) (path : String) : Except FileFault Disk :=
  match d.locate path with
  | .error fault => .error fault
  | .ok (.directory _) => .error .isDirectory
  | .ok (.entry parent name slash) =>
    match d.find? (parent ++ [name]) with
    | none => .error .notFound
    | some (.directory _) => .error .isDirectory
    | some (.file _ _) =>
      if slash then .error .notDirectory else .ok (d.erase (parent ++ [name]))

/-- Set the permission bits of what stands at a path. -/
def setMode (d : Disk) (path : String) (mode : Nat) : Except FileFault Disk :=
  match d.locate path with
  | .error fault => .error fault
  | .ok target =>
    match d.find? target.location with
    | none => .error .notFound
    | some (.directory _) => .ok (d.put target.location (.directory mode))
    | some (.file _ content) => .ok (d.put target.location (.file mode content))

/-- Write a whole file. -/
def write (d : Disk) (path : String) (content : List UInt8) : Except FileFault Disk :=
  match d.createOrTruncate path 0o666 with
  | .error fault => .error fault
  | .ok d => d.writeAt path 0 content

/-- The name of a place in a directory, if it is one directly below it. -/
def childName? (directory location : Location) : Option String :=
  if location.dropLast = directory then location.getLast? else none

/-- The names in the directory at a place, sorted. -/
def children (d : Disk) (location : Location) : List String :=
  (d.nodes.keys.filterMap (childName? location)).mergeSort (· ≤ ·)

/-- The sorted names in a directory. -/
def list (d : Disk) (path : String) : Except FileFault (List String) :=
  match d.locate path with
  | .error fault => .error fault
  | .ok target =>
    match d.find? target.location with
    | none => .error .notFound
    | some (.file _ _) => .error .notDirectory
    | some (.directory _) => .ok (d.children target.location)

/-- Remove a directory and all that is below it. -/
def removeAll (d : Disk) (path : String) : Except FileFault Disk :=
  match d.locate path with
  | .error fault => .error fault
  | .ok target =>
    .ok { d with nodes := d.nodes.filter fun l _ => !target.location.isPrefixOf l }

end Disk

end Keyring
