import Keyring.CommandLine.Place

/-!
# Command-line arguments

The arguments choose one command and its options. They are read one after the other; the first one
that is wrong, or that asks for the version or for help, decides the result.

A flag is written as `--word` or as a letter after a dash, with several letters possible after one
dash. Its value is the next argument or follows in the same one. After `--` no argument is a flag.
Flags that all commands have may stand after any word; where several places have a value, the last
place counts, but no place may have two.
-/

namespace Keyring.CommandLine

/-- Where the material of a new key comes from. -/
inductive Material where
  /-- It is given in hexadecimal digits. -/
  | hex (digits : String)
  /-- It is generated. -/
  | generated
  deriving DecidableEq, Repr

/-- A command. -/
inductive Command where
  /-- Store a new key. -/
  | create (name : String) (material : Material)
  /-- Print a key. -/
  | get (name : String)
  /-- Delete a key. -/
  | delete (name : String)
  /-- Write a new master key file. -/
  | generateMasterKey (output : Option String) (force : Bool)
  /-- Print the configuration. -/
  | showConfig (json : Bool)
  deriving DecidableEq, Repr

/-- What the arguments ask for. -/
inductive Request where
  /-- To run a command with a configuration file. -/
  | run (configFile : Option String) (command : Command)
  /-- To print the version. -/
  | version (place : Place)
  /-- To print how a command is used. -/
  | help (place : Place)
  deriving DecidableEq, Repr

/-- What is wrong with the arguments. -/
inductive UsageFault where
  /-- An argument has no meaning at its place. -/
  | unexpected (argument : String)
  /-- A flag is repeated. -/
  | repeated (flag : Flag)
  /-- A flag has no value but needs one. -/
  | valueMissing (flag : Flag)
  /-- A flag has a value but takes none. -/
  | valueNeedless (flag : Flag)
  /-- A subcommand is missing. -/
  | subcommandMissing
  /-- The name of the key is missing. -/
  | nameMissing
  /-- A new key has no material, or material from two places. -/
  | materialNotOne
  deriving DecidableEq, Repr

/-- The wording of what is wrong. -/
def UsageFault.message : UsageFault → String
  | .unexpected argument => "unexpected argument '" ++ argument ++ "' found"
  | .repeated flag => "the argument '--" ++ flag.word ++ "' cannot be used multiple times"
  | .valueMissing flag => "a value is required for '--" ++ flag.word ++ "' but none was supplied"
  | .valueNeedless flag => "unexpected value for '--" ++ flag.word ++ "' found"
  | .subcommandMissing => "a subcommand is required but one was not provided"
  | .nameMissing => "the name of the key was not provided"
  | .materialNotOne => "exactly one of '--hex' and '--generate' is required"

/-- Why the reading of arguments ends before the last one. -/
inductive Stop where
  /-- An argument is wrong. -/
  | fault (fault : UsageFault)
  /-- An argument asks for something that needs no others. -/
  | request (request : Request)

/-- The form of an argument where flags are possible. -/
inductive Form where
  /-- Two dashes. -/
  | dashes
  /-- The word of a flag, with a value that follows in the same argument. -/
  | long (word : String) (value : Option String)
  /-- The letters of flags. -/
  | letters (letters : List Char)
  /-- No flag. -/
  | plain
  deriving DecidableEq, Repr

/-- The form of an argument. -/
def Form.of : List Char → Form
  | ['-', '-'] => .dashes
  | '-' :: '-' :: rest =>
    .long (String.ofList (rest.takeWhile (· ≠ '=')))
      (match rest.dropWhile (· ≠ '=') with
        | [] => none
        | _ :: value => some (String.ofList value))
  | ['-'] => .plain
  | '-' :: rest => .letters rest
  | _ => .plain

/-- Arguments as far as they have been read. -/
structure Reading where
  /-- The command that the words have led to. -/
  place : Place
  /-- The flags at this place with their values. -/
  given : List (Flag × String)
  /-- The flag whose value comes next. -/
  awaiting : Option Flag
  /-- Whether no argument is a flag any more. -/
  literal : Bool
  /-- The name of the key. -/
  name : Option String
  /-- The configuration file that was given at the places before. -/
  configFile : Option String

namespace Reading

/-- Nothing has been read at a place. -/
def start (place : Place) (configFile : Option String) : Reading :=
  ⟨place, [], none, false, none, configFile⟩

/-- The configuration file. -/
def configFile? (r : Reading) : Option String := (r.given.lookup .config).or r.configFile

/-- Take a flag with its value. -/
def give (r : Reading) (flag : Flag) (value : String) : Except Stop Reading :=
  match flag with
  | .help => .error (.request (.help r.place))
  | .version => .error (.request (.version r.place))
  | .verbose => .ok r
  | flag =>
    if (r.given.lookup flag).isSome then .error (.fault (.repeated flag))
    else .ok { r with given := (flag, value) :: r.given, awaiting := none }

/-- Take a word: a subcommand, or the name of a key. -/
def takeWord (r : Reading) (word : String) : Except Stop Reading :=
  match r.place.subcommands.lookup word with
  | some place =>
    if r.literal then .error (.fault (.unexpected word)) else .ok (start place r.configFile?)
  | none =>
    if r.place.hasName && r.name.isNone then .ok { r with name := some word }
    else if word = "help" && !r.literal && !r.place.subcommands.isEmpty then
      .error (.request (.help r.place))
    else .error (.fault (.unexpected word))

/-- Take the letters after a dash. -/
def takeLetters (r : Reading) : List Char → Except Stop Reading
  | [] => .ok r
  | letter :: letters =>
    match r.place.flagOfLetter? letter with
    | none => .error (.fault (.unexpected (String.ofList ['-', letter])))
    | some flag =>
      if flag.hasValue then
        match letters with
        | [] => .ok { r with awaiting := some flag }
        | '=' :: value => r.give flag (String.ofList value)
        | value => r.give flag (String.ofList value)
      else
        match r.give flag "" with
        | .error stop => .error stop
        | .ok r => r.takeLetters letters

/-- Take the word of a flag. -/
def takeLong (r : Reading) (word : String) (value : Option String) : Except Stop Reading :=
  match r.place.flagOfWord? word with
  | none => .error (.fault (.unexpected ("--" ++ word)))
  | some flag =>
    match flag.hasValue, value with
    | true, some value => r.give flag value
    | true, none => .ok { r with awaiting := some flag }
    | false, some _ => .error (.fault (.valueNeedless flag))
    | false, none => r.give flag ""

/-- Take the next argument. -/
def take (r : Reading) (argument : String) : Except Stop Reading :=
  let form := if r.literal then Form.plain else Form.of argument.toList
  match form, r.awaiting with
  | .plain, some flag =>
    if r.literal then .error (.fault (.valueMissing flag)) else r.give flag argument
  | .plain, none => r.takeWord argument
  | .dashes, _ => .ok { r with literal := true }
  | _, some flag => .error (.fault (.valueMissing flag))
  | .letters letters, none => r.takeLetters letters
  | .long word value, none => r.takeLong word value

/-- The material that was given for a new key. -/
def material (r : Reading) : Except Stop Material :=
  match r.given.lookup .hex, r.given.lookup .generate with
  | some digits, none => .ok (.hex digits)
  | none, some _ => .ok .generated
  | _, _ => .error (.fault .materialNotOne)

/-- The command at the end of the arguments. -/
def command (r : Reading) : Except Stop Command :=
  match r.awaiting, r.place, r.name with
  | some flag, _, _ => .error (.fault (.valueMissing flag))
  | none, .create, some name => r.material.map (.create name)
  | none, .get, some name => .ok (.get name)
  | none, .delete, some name => .ok (.delete name)
  | none, .generate, _ =>
    .ok (.generateMasterKey (r.given.lookup .output) (r.given.lookup .force).isSome)
  | none, .showing, _ => .ok (.showConfig (r.given.lookup .json).isSome)
  | none, place, _ =>
    .error (.fault (if place.hasName then .nameMissing else .subcommandMissing))

/-- Take all arguments. -/
def takeAll (r : Reading) (arguments : List String) : Except Stop Request := do
  let r ← arguments.foldlM take r
  let command ← r.command
  return .run r.configFile? command

end Reading

/-- What arguments ask for. -/
def Request.ofArguments (arguments : List String) : Except UsageFault Request :=
  match (Reading.start .program none).takeAll arguments with
  | .ok request => .ok request
  | .error (.request request) => .ok request
  | .error (.fault fault) => .error fault

end Keyring.CommandLine
