import Keyring.Cipher.Aead
import Keyring.Disk
import Keyring.Disk.Reply
import Keyring.Error
import Keyring.Text.Blank
import Keyring.Text.Hex
import Keyring.Text.Utf8

/-!
# Master key files

A master key file holds one key as 64 hexadecimal digits, with blanks around them allowed.

Making a key file takes several calls to the file system. `Generation` is a making in progress and
`Generation.step` its next call, so that the states between the calls can be spoken of;
`KeyFile.generate` makes all of them. The key material is an argument.
-/

namespace Keyring.KeyFile

/-- The number of bytes in a master key. -/
def keySize : Nat := 32

/-- The content of the file that holds a key. -/
def content (key : Cipher.Key) : List UInt8 := Text.Utf8.encode (Text.Hex.encode key.bytes)

/-- The key that a file content holds; `path` is named in the errors. -/
def decode (path : String) (content : List UInt8) : Except Error Cipher.Key :=
  match Text.Utf8.decode? content with
  | none =>
    .error (.invalidConfig ("Failed to read key file " ++ path ++ ": " ++
      FileFault.notText.message))
  | some text =>
    match Text.Hex.decode (Text.Utf8.encode (Text.trim text)) with
    | .error fault =>
      .error (.invalidConfig ("Key file " ++ path ++ " is not valid hex: " ++ fault.message))
    | .ok bytes =>
      if h : bytes.length = keySize then .ok ⟨bytes, h⟩
      else
        .error (.invalidConfig ("Key file " ++ path ++ " must hold " ++ toString keySize ++
          " bytes, got " ++ toString bytes.length))

/-- Read a key file; a leading `~` of the path is the home directory. -/
def load (d : Disk) (home : Option String) (path : String) : Except Error Cipher.Key :=
  let path := Path.expandHome home path
  match d.read path with
  | .error fault =>
    .error (.invalidConfig ("Failed to read key file " ++ path ++ ": " ++ fault.message))
  | .ok content => decode path content

/-- The next call of a making in progress. -/
inductive Stage where
  /-- Look whether the file exists. -/
  | look
  /-- Make the directories above it. -/
  | makeParents
  /-- Open it, empty. -/
  | openFile
  /-- Write what follows the bytes that are written. -/
  | write (written : Nat)
  /-- Take the permissions of all but the owner away. -/
  | restrict
  /-- There is none. -/
  | finished (result : Except Error Unit)

/-- The making of a key file in progress. -/
structure Generation where
  /-- Where the file is to be. -/
  path : String
  /-- Whether an existing file may be replaced. -/
  overwrite : Bool
  /-- The content that the file is to have. -/
  content : List UInt8
  /-- The next call. -/
  stage : Stage

namespace Generation

/-- A making that has not begun; a leading `~` of the path is the home directory. -/
def start (home : Option String) (path : String) (overwrite : Bool) (key : Cipher.Key) :
    Generation :=
  ⟨Path.expandHome home path, overwrite, KeyFile.content key, .look⟩

/-- Go on to a stage. -/
def goTo (g : Generation) (stage : Stage) : Generation := { g with stage }

/-- End with a failed call. -/
def fail (g : Generation) (fault : FileFault) : Generation :=
  g.goTo (.finished (.error (.io fault)))

/-- End because the file exists. -/
def refuse (g : Generation) : Generation :=
  g.goTo (.finished (.error (.invalidConfig
    ("Key file already exists: " ++ g.path ++ ". Use --force to overwrite"))))

/-- Make the next call. A file that cannot be looked at counts as absent. -/
def step (d : Disk) (g : Generation) (reply : Disk.Reply) : Disk × Generation :=
  match g.stage, reply with
  | .finished _, _ => (d, g)
  | .look, .refuse _ => (d, g.goTo .makeParents)
  | .look, .accept _ =>
    (d, if d.pathExists g.path && !g.overwrite then g.refuse else g.goTo .makeParents)
  | _, .refuse fault => (d, g.fail fault)
  | .makeParents, .accept _ =>
    match Path.parent? g.path with
    | none => (d, g.goTo .openFile)
    | some parent =>
      match d.makeDirectories parent 0o777 with
      | (d, .error fault) => (d, g.fail fault)
      | (d, .ok ()) => (d, g.goTo .openFile)
  | .openFile, .accept _ =>
    match d.createOrTruncate g.path 0o666 with
    | .error fault => (d, g.fail fault)
    | .ok d => (d, g.goTo (.write 0))
  | .write written, .accept limit =>
    match d.writeAt g.path written ((g.content.drop written).take (limit + 1)) with
    | .error fault => (d, g.fail fault)
    | .ok d =>
      if written + (limit + 1) < g.content.length then (d, g.goTo (.write (written + (limit + 1))))
      else (d, g.goTo .restrict)
  | .restrict, .accept _ =>
    match d.setMode g.path 0o600 with
    | .error fault => (d, g.fail fault)
    | .ok d => (d, g.goTo (.finished (.ok ())))

/-- An upper bound of the number of calls that are left. -/
def remaining (g : Generation) : Nat :=
  match g.stage with
  | .look => g.content.length + 5
  | .makeParents => g.content.length + 4
  | .openFile => g.content.length + 3
  | .write written => g.content.length - written + 2
  | .restrict => 1
  | .finished _ => 0

/-- The result of a making that is at its end. -/
def result (g : Generation) : Except Error Unit :=
  match g.stage with
  | .finished result => result
  | _ => .ok ()

/-- Every call brings a making nearer to its end. -/
theorem remaining_step (d : Disk) (g : Generation) (reply : Disk.Reply) (h : g.remaining ≠ 0) :
    (g.step d reply).2.remaining < g.remaining := by
  unfold step
  split <;> (repeat' split) <;> simp_all [remaining, goTo, fail, refuse] <;> omega

/-- Make all calls that are left, on a device that takes everything. -/
def complete (d : Disk) (g : Generation) : Disk × Except Error Unit :=
  if h : g.remaining = 0 then (d, g.result)
  else
    have := remaining_step d g (.accept g.content.length) h
    complete (g.step d (.accept g.content.length)).1 (g.step d (.accept g.content.length)).2
termination_by g.remaining

end Generation

/-- Make a key file. -/
def generate (d : Disk) (home : Option String) (path : String) (overwrite : Bool)
    (key : Cipher.Key) : Disk × Except Error Unit :=
  (Generation.start home path overwrite key).complete d

end Keyring.KeyFile
