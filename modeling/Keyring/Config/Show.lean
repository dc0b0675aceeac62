import Keyring.Config
import Keyring.Json.StringLiteral
import Keyring.Yaml.Scalar.Writer

/-!
# Showing a configuration

The text of a configuration as a YAML document, which can be loaded again, and as a JSON document.
-/

namespace Keyring.Config

/-- The members of a section, each with the written form of its value up to the end of the line. -/
def yamlSection (name : String) (members : List (String × List Char)) : List Char :=
  name.toList ++ ":\n".toList ++
    members.flatMap fun m => "  ".toList ++ m.1.toList ++ ": ".toList ++ m.2

/-- The columns that lines inside a value are indented by. -/
def yamlIndent : Nat := 4

/-- The written form of a text as the value of a member. -/
def yamlText (s : String) : List Char := Yaml.ScalarWriter.line yamlIndent s.toList

/-- The written form of a number as the value of a member. -/
def yamlNumber (n : UInt64) : List Char := (toString n.toNat).toList ++ ['\n']

/-- The texts of a configuration, in the order in which they are shown. -/
def shownTexts (c : Config) : List String :=
  pathText c.directory ::
    match c.kms with
    | none => []
    | some k => [k.key, pathText k.keyFile]

/-- Whether a text is written as a block that keeps the line breaks at its end. -/
def isOpenEnded (s : String) : Bool :=
  Yaml.ScalarWriter.style s.toList = .literal && Yaml.ScalarWriter.keepsBreaks s.toList

/-- Whether the last block, if there is one, keeps the line breaks at its end. -/
def needsEndMarker (texts : List String) : Bool :=
  match (texts.filter fun s => Yaml.ScalarWriter.style s.toList = .literal).getLast? with
  | none => false
  | some s => isOpenEnded s

/-- A configuration as a YAML document. It ends with a mark if one of its blocks could go on. -/
def toYaml (c : Config) : List Char :=
  yamlSection "store"
      [("backend", yamlText c.backend.name), ("dir", yamlText (pathText c.directory))] ++
    yamlSection "cache"
      [("expiry_secs", yamlNumber c.expirySeconds),
        ("expiry_unused_secs", yamlNumber c.unusedExpirySeconds)] ++
    (match c.kms with
      | none => []
      | some k =>
        yamlSection "kms" [("key", yamlText k.key), ("key_file", yamlText (pathText k.keyFile))]) ++
    (if needsEndMarker c.shownTexts then "...\n".toList else [])

/-- A section of a JSON document. -/
def jsonSection (name : String) (members : List (String × List Char)) : List Char :=
  "  \"".toList ++ name.toList ++ "\": \x7b\n".toList ++
    List.intercalate ",\n".toList
      (members.map fun m => "    \"".toList ++ m.1.toList ++ "\": ".toList ++ m.2) ++
    "\n  \x7d".toList

/-- A text in a JSON document. -/
def jsonText (s : String) : List Char := Json.StringLiteral.encode s.toList

/-- A number in a JSON document. -/
def jsonNumber (n : UInt64) : List Char := (toString n.toNat).toList

/-- A configuration as a JSON document. -/
def toJson (c : Config) : List Char :=
  let sections :=
    [jsonSection "store"
        [("backend", jsonText c.backend.name), ("dir", jsonText (pathText c.directory))],
      jsonSection "cache"
        [("expiry_secs", jsonNumber c.expirySeconds),
          ("expiry_unused_secs", jsonNumber c.unusedExpirySeconds)]] ++
    match c.kms with
    | none => []
    | some k =>
      [jsonSection "kms" [("key", jsonText k.key), ("key_file", jsonText (pathText k.keyFile))]]
  "\x7b\n".toList ++ List.intercalate ",\n".toList sections ++ "\n\x7d".toList

end Keyring.Config
