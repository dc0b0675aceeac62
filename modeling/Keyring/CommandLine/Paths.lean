import Keyring.CommandLine.Run

/-!
# The paths of a command

Which places of the disk a command may look at or change. A program that works on a part of a disk
can so find out which part it needs: first the configuration file, and with that the rest.
-/

namespace Keyring.CommandLine

/-- The path of the configuration file. -/
def configPaths (e : Environment) (configFile : Option String) : List String :=
  match configFile, Config.homeDirectory e with
  | some path, _ => [path]
  | none, .ok directory => [Path.join directory Config.fileName]
  | none, .error _ => []

/-- The path of the master key file of a configuration. -/
def keyFilePaths (e : Environment) (c : Config) : List String :=
  match c.kms with
  | none => []
  | some k => [Path.expandHome e.home? (Config.pathText k.keyFile)]

/-- The paths for a key of a name under a configuration. -/
def keyPaths (e : Environment) (c : Config) (name : String) : List String :=
  keyFilePaths e c ++
    match c.backend with
    | .memory => []
    | .files => [Store.path (c.expandedDirectory e.home?) name]

/-- The paths of a command besides the configuration file, as far as the disk tells them. -/
def Command.paths (d : Disk) (e : Environment) (configFile : Option String) :
    Command → List String
  | .showConfig _ => []
  | .generateMasterKey output _ =>
    match masterKeyPath d e configFile output with
    | .ok path => [Path.expandHome e.home? path]
    | .error _ => []
  | .create name _ | .get name | .delete name =>
    match loadConfig d e configFile with
    | .ok c => keyPaths e c name
    | .error _ => []

/-- The paths that a run with some arguments may look at or change, as far as the disk tells
them. -/
def paths (d : Disk) (e : Environment) (arguments : List String) : List String :=
  match Request.ofArguments arguments with
  | .ok (.run configFile command) => configPaths e configFile ++ command.paths d e configFile
  | _ => []

end Keyring.CommandLine
