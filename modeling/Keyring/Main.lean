import Keyring.CommandLine.Paths

/-!
# The program

Runs a command on the file system of the machine. The places that the command needs are read into a
disk, the command runs on that disk, and what it changed is written back.
-/

namespace Keyring.Main

/-- The names of the variables that the program looks at. -/
def variableNames : List String :=
  ["HOME", "KEYHOLD_STORE_BACKEND", "KEYHOLD_STORE_DIR", "KEYHOLD_CACHE_EXPIRY_SECS",
    "KEYHOLD_CACHE_EXPIRY_UNUSED_SECS", "KEYHOLD_KMS_KEY", "KEYHOLD_KMS_KEY_FILE"]

/-- Read the environment. -/
def readEnvironment : IO Environment := do
  let entries ← variableNames.filterMapM fun name => do
    return (← IO.getEnv name).map fun value => (name, Text.Utf8.ofString value)
  return ⟨entries, none⟩

/-- Draw what is random. -/
def drawRandomness : IO CommandLine.Randomness := do
  let bytes := (← IO.getRandomBytes 44).toList
  if h : (bytes.take 32).length = 32 then
    if h' : (bytes.drop 32).length = 12 then return ⟨⟨bytes.take 32, h⟩, ⟨bytes.drop 32, h'⟩⟩
  throw (IO.userError "not enough random bytes")

/-- The place that a part of a path leads to from a place. -/
def follow (location : Location) (part : String) : Location :=
  if part = "." then location
  else if part = ".." then location.dropLast
  else location ++ [part]

/-- The places on the way to the place of a path, that place included. -/
def placesOf (d : Disk) (path : String) : List Location :=
  let location := (Path.parts path).foldl follow (if Path.isAbsolute path then [] else d.current)
  (List.range location.length).map fun n => location.take (n + 1)

/-- The path of a place. -/
def pathOf (location : Location) : String := "/" ++ "/".intercalate location

/-- Read what stands at a place of the machine. -/
def readPlace (location : Location) : IO (Option Node) := do
  match ← (IO.FS.realPath (pathOf location)).toBaseIO with
  | .error _ => return none
  | .ok path =>
    if ← path.isDir then return some (.directory 0o755)
    return some (.file 0o644 (← IO.FS.readBinFile path).toList)

/-- Read places of the machine into a disk. -/
def readPlaces (d : Disk) (paths : List String) : IO Disk :=
  (paths.flatMap (placesOf d)).foldlM (fun d location => do
    match ← readPlace location with
    | none => return d
    | some node => return d.put location node) d

/-- One digit of permission bits. -/
def accessRight (digit : Nat) : IO.AccessRight where
  read := digit.testBit 2
  write := digit.testBit 1
  execution := digit.testBit 0

/-- Set the permission bits of a path of the machine. -/
def setMode (path : String) (mode : Nat) : IO Unit :=
  IO.setAccessRights path
    ⟨accessRight (mode / 64 % 8), accessRight (mode / 8 % 8), accessRight (mode % 8)⟩

/-- Write back what stands at a place, if it has changed. A new file is closed to others before it
is filled. -/
def writePlace (before after : Disk) (location : Location) : IO Unit := do
  let path := pathOf location
  if before.find? location = after.find? location then return
  match after.find? location with
  | none => IO.FS.removeFile path
  | some (.directory mode) =>
    IO.FS.createDir path
    setMode path mode
  | some (.file mode content) =>
    IO.FS.writeBinFile path .empty
    setMode path mode
    IO.FS.writeBinFile path content.toByteArray

/-- Run the program; gives the exit code. -/
def run (arguments : List String) : IO UInt32 := do
  let environment ← readEnvironment
  let random ← drawRandomness
  let current := Path.parts (← IO.currentDir).toString
  let empty := Disk.empty current 0o022
  let withConfig ← readPlaces empty (CommandLine.paths empty environment arguments)
  let paths := CommandLine.paths withConfig environment arguments
  let before ← readPlaces withConfig paths
  let (after, report) := CommandLine.run before environment random arguments
  ((paths.flatMap (placesOf before)).eraseDups).forM (writePlace before after)
  IO.print report.stdout
  IO.eprint report.stderr
  return report.code.toUInt32

end Keyring.Main

/-- The program. -/
def main (arguments : List String) : IO UInt32 := Keyring.Main.run arguments
