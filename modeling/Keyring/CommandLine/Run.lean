import Keyring.CommandLine.Arguments
import Keyring.Config.Load
import Keyring.Config.Show
import Keyring.Store.Alone
import Keyring.Store.Open

/-!
# Running commands

What a command prints and what it changes on the disk. Key material and configurations go to the
standard output, so that they can be passed on; lines about what was done go to the standard error.
-/

namespace Keyring.CommandLine

/-- What a run prints, and its exit code. -/
structure Report where
  /-- The exit code. -/
  code : UInt8
  /-- The standard output. -/
  stdout : String
  /-- The standard error. -/
  stderr : String
  deriving DecidableEq, Repr

namespace Report

/-- A line about success. -/
def success (text : String) : String := "✓ " ++ text ++ "\n"

/-- A line about failure. -/
def failure (text : String) : String := "✗ " ++ text ++ "\n"

/-- A line of warning. -/
def warning (text : String) : String := "⚠ " ++ text ++ "\n"

/-- A line of information. -/
def information (text : String) : String := "ℹ " ++ text ++ "\n"

/-- The report of a run that did what it was to do. -/
def succeeded (stdout stderr : String) : Report := ⟨0, stdout, stderr⟩

/-- The report of a run that failed for a cause. -/
def failed (cause : String) : Report := ⟨1, "", failure cause⟩

/-- The report of a run with wrong arguments. -/
def refused (fault : UsageFault) : Report := ⟨2, "", "error: " ++ fault.message ++ "\n"⟩

/-- The report with lines before those about what was done. -/
def after (before : String) (r : Report) : Report := { r with stderr := before ++ r.stderr }

end Report

/-- What is random in a run. -/
structure Randomness where
  /-- The material of a key or of a master key. -/
  material : Cipher.Key
  /-- The number used once to encrypt a key. -/
  nonce : Cipher.Nonce

/-- The secret of generated material. -/
def Randomness.secret (random : Randomness) : Secret where
  bytes := random.material.bytes
  ne_nil := by
    intro h
    have := random.material.length_eq
    simp [h] at this
  length_le := by simp [random.material.length_eq, Secret.maxSize]

/-- Where a new master key is written if nothing else is said. -/
def defaultKeyFile : String := "~/.keyhold/master.key"

/-- Load the configuration, or tell the cause why it cannot be loaded. -/
def loadConfig (d : Disk) (e : Environment) (configFile : Option String) : Except String Config :=
  match Config.homeDirectory e with
  | .error error => .error error.message
  | .ok directory =>
    match Config.load d e directory configFile with
    | .error error => .error ("Failed to load configuration: " ++ error.message)
    | .ok c => .ok c

/-- What to warn of under a configuration. -/
def warningFor (c : Config) : String :=
  match c.backend with
  | .files => ""
  | .memory => Report.warning "The mem backend does not keep keys after this command exits"

/-- Make a call alone and report how it ended: `verb` says what it was to do with the key, and
`succeeded` reports the answer. -/
def reportCall (store : Store) (keys : MasterKeys) (nonce : Cipher.Nonce) (verb name : String)
    (operation : Operation) (succeeded : Answer → Report) : Disk × Report :=
  let (outcome, store) := store.runAlone keys nonce 0 name operation
  (store.disk,
    match outcome with
    | some (.ok answer) => succeeded answer
    | some (.error error) =>
      Report.failed ("Failed to " ++ verb ++ " key '" ++ name ++ "': " ++ error.message)
    | none => Report.failed ("Failed to " ++ verb ++ " key '" ++ name ++ "'"))

/-- The secret of a new key, or the cause why there is none. -/
def Material.secret (random : Randomness) : Material → Except String Secret
  | .hex digits =>
    match Secret.parse digits.toList with
    | .ok secret => .ok secret
    | .error fault => .error ("Invalid --hex value: " ++ fault.toError.message)
  | .generated => .ok random.secret

/-- What is reported of a new key. -/
def reportCreated (name : String) (secret : Secret) : Material → Report
  | .hex _ => .succeeded "" (Report.success ("Created key '" ++ name ++ "'"))
  | .generated =>
    .succeeded (secret.toHex ++ "\n")
      (Report.success ("Created key '" ++ name ++ "'") ++
        Report.information "Generated key material, it is shown only once:")

/-- What is reported of a key that was read. -/
def reportRead : Answer → Report
  | .secret secret => .succeeded (secret.toHex ++ "\n") ""
  | .done => .succeeded "" ""

/-- A command on a key of an open store. -/
def onKey (store : Store) (keys : MasterKeys) (random : Randomness) : Command → Disk × Report
  | .create name material =>
    match material.secret random with
    | .error cause => (store.disk, .failed cause)
    | .ok secret =>
      reportCall store keys random.nonce "create" name (.create secret) fun _ =>
        reportCreated name secret material
  | .get name => reportCall store keys random.nonce "get" name .get reportRead
  | .delete name =>
    reportCall store keys random.nonce "delete" name .delete fun _ =>
      .succeeded "" (Report.success ("Deleted key '" ++ name ++ "'"))
  | _ => (store.disk, .succeeded "" "")

/-- Open the store of the configuration for a command on a key. -/
def runOnKey (d : Disk) (e : Environment) (random : Randomness) (configFile : Option String)
    (command : Command) : Disk × Report :=
  match loadConfig d e configFile with
  | .error cause => (d, .failed cause)
  | .ok c =>
    match Store.open c d e.home? 0 with
    | .error error => (d, (Report.failed error.message).after (warningFor c))
    | .ok (store, keys) =>
      let (d, report) := onKey store keys random command
      (d, report.after (warningFor c))

/-- Where a new master key is to be written. -/
def masterKeyPath (d : Disk) (e : Environment) (configFile output : Option String) :
    Except String String :=
  match output with
  | some path => .ok path
  | none =>
    match loadConfig d e configFile with
    | .error cause => .error cause
    | .ok c => .ok ((c.kms.map fun k => Config.pathText k.keyFile).getD defaultKeyFile)

/-- Write a new master key file. -/
def runGenerate (d : Disk) (e : Environment) (random : Randomness)
    (configFile output : Option String) (force : Bool) : Disk × Report :=
  match masterKeyPath d e configFile output with
  | .error cause => (d, .failed cause)
  | .ok path =>
    match KeyFile.generate d e.home? path force random.material with
    | (d, .error error) => (d, .failed error.message)
    | (d, .ok ()) =>
      (d, .succeeded ""
        (Report.success ("Generated master key file " ++ path) ++
          Report.information "Set kms.key and kms.key_file in config.yaml to encrypt keys at rest"))

/-- Print the configuration. -/
def reportConfig (c : Config) (json : Bool) : Report :=
  if json then .succeeded (String.ofList c.toJson ++ "\n") ""
  else .succeeded (String.ofList c.toYaml) "\nResolved configuration\n"

/-- Run a command. -/
def Command.run (d : Disk) (e : Environment) (random : Randomness) (configFile : Option String)
    (command : Command) : Disk × Report :=
  match command with
  | .generateMasterKey output force => runGenerate d e random configFile output force
  | .showConfig json =>
    match loadConfig d e configFile with
    | .error cause => (d, .failed cause)
    | .ok c => (d, reportConfig c json)
  | command => runOnKey d e random configFile command

/-- Run the program with some arguments. -/
def run (d : Disk) (e : Environment) (random : Randomness) (arguments : List String) :
    Disk × Report :=
  match Request.ofArguments arguments with
  | .error fault => (d, .refused fault)
  | .ok (.version place) => (d, .succeeded place.versionLine "")
  | .ok (.help place) => (d, .succeeded place.usageLine "")
  | .ok (.run configFile command) => command.run d e random configFile

end Keyring.CommandLine
