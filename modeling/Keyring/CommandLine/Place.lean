/-!
# The commands

The words of the command line form a tree: a command may have subcommands, and the arguments walk
down from the program itself. `Place` is a node of that tree. It decides which words and which flags
may come next.
-/

namespace Keyring.CommandLine

/-- The name of the program. -/
def program : String := "keyhold"

/-- The version of the program. -/
def version : String := "0.1.0"

/-- A command of any level. -/
inductive Place where
  /-- The program itself. -/
  | program
  /-- Commands on keys. -/
  | key
  /-- Store a new key. -/
  | create
  /-- Print a key. -/
  | get
  /-- Delete a key. -/
  | delete
  /-- Commands on master keys. -/
  | masterKey
  /-- Write a new master key file. -/
  | generate
  /-- Commands on the configuration. -/
  | config
  /-- Print the configuration. -/
  | showing
  deriving DecidableEq, Repr

/-- An option, with or without a value. -/
inductive Flag where
  /-- Log more; may be repeated. -/
  | verbose
  /-- Log errors only. -/
  | quiet
  /-- The configuration file. -/
  | config
  /-- Print how the command is used. -/
  | help
  /-- Print the version. -/
  | version
  /-- The material of a new key. -/
  | hex
  /-- Generate the material of a new key. -/
  | generate
  /-- The path of a new master key file. -/
  | output
  /-- Replace an existing master key file. -/
  | force
  /-- Print as JSON. -/
  | json
  deriving DecidableEq, Repr

namespace Flag

/-- The word for a flag. -/
def word : Flag → String
  | verbose => "verbose"
  | quiet => "quiet"
  | config => "config"
  | help => "help"
  | version => "version"
  | hex => "hex"
  | generate => "generate"
  | output => "output"
  | force => "force"
  | json => "json"

/-- The letter for a flag, if it has one. -/
def letter? : Flag → Option Char
  | verbose => some 'v'
  | quiet => some 'q'
  | config => some 'c'
  | help => some 'h'
  | version => some 'V'
  | output => some 'o'
  | _ => none

/-- Whether a flag has a value. -/
def hasValue : Flag → Bool
  | config | hex | output => true
  | _ => false

end Flag

namespace Place

/-- The words that lead to a place after the name of the program. -/
def words : Place → List String
  | program => []
  | key => ["key"]
  | create => ["key", "create"]
  | get => ["key", "get"]
  | delete => ["key", "delete"]
  | masterKey => ["master-key"]
  | generate => ["master-key", "generate"]
  | config => ["config"]
  | showing => ["config", "show"]

/-- All words that lead to a place. -/
def path (p : Place) : List String := CommandLine.program :: p.words

/-- The subcommands of a place. -/
def subcommands : Place → List (String × Place)
  | program => [("key", key), ("master-key", masterKey), ("config", config)]
  | key => [("create", create), ("get", get), ("delete", delete)]
  | masterKey => [("generate", generate)]
  | config => [("show", showing)]
  | _ => []

/-- The flags that only a place has. -/
def ownFlags : Place → List Flag
  | create => [.hex, .generate]
  | generate => [.output, .force]
  | showing => [.json]
  | _ => []

/-- The flags of a place. -/
def flags (p : Place) : List Flag := p.ownFlags ++ [.verbose, .quiet, .config, .help, .version]

/-- Whether the name of a key follows. -/
def hasName : Place → Bool
  | create | get | delete => true
  | _ => false

/-- The flag of a word. -/
def flagOfWord? (p : Place) (word : String) : Option Flag :=
  p.flags.find? fun flag => flag.word = word

/-- The flag of a letter. -/
def flagOfLetter? (p : Place) (letter : Char) : Option Flag :=
  p.flags.find? fun flag => flag.letter? = some letter

/-- The line that tells the version. -/
def versionLine (p : Place) : String :=
  "-".intercalate p.path ++ " " ++ CommandLine.version ++ "\n"

/-- How a flag is written. -/
def flagUsage (flag : Flag) : String :=
  "[--" ++ flag.word ++ (if flag.hasValue then " <VALUE>" else "") ++ "]"

/-- The line that tells how a place is used. -/
def usageLine (p : Place) : String :=
  " ".intercalate
    (["Usage:"] ++ p.path ++
      (if p.subcommands = [] then []
        else ["<" ++ "|".intercalate (p.subcommands.map (·.1)) ++ ">"]) ++
      (if p.hasName then ["<NAME>"] else []) ++ p.flags.map flagUsage) ++ "\n"

end Place

end Keyring.CommandLine
