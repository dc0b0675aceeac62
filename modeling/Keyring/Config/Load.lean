import Keyring.Config.Document
import Keyring.Config.Environment
import Keyring.Disk

/-!
# Loading a configuration

Standard values are overridden by the configuration file, and that by the environment. A file that
is asked for must exist; the one in the configuration directory need not.
-/

namespace Keyring.Config

/-- The name of the configuration file in its directory. -/
def fileName : String := "config.yaml"

/-- The configuration directory of a process. -/
def homeDirectory (e : Environment) : Except Error String :=
  match e.home? with
  | some home => .ok (Path.join home ".keyhold")
  | none => .error (.invalidConfig "Could not determine home directory")

/-- Read a configuration file. -/
def readFile (d : Disk) (path : String) : Except Error Config :=
  match d.read path with
  | .error fault => .error (.io fault)
  | .ok content =>
    match Text.Utf8.decode? content with
    | none => .error (.io .notText)
    | some text => ofText text

/-- Read the file that is asked for, or the one in the configuration directory if it exists. -/
def ofFiles (d : Disk) (directory : String) (path : Option String) : Except Error Config :=
  match path with
  | some path => if d.pathExists path then readFile d path else .error (.configNotFound path)
  | none =>
    let path := Path.join directory fileName
    if d.pathExists path then readFile d path else .ok standard

/-- Load the configuration. -/
def load (d : Disk) (e : Environment) (directory : String) (path : Option String) :
    Except Error Config := do
  let c ← ofFiles d directory path
  let c ← override e c
  c.validate
  return c

end Keyring.Config
