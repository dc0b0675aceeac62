import Keyring.Yaml.Scalar
import Keyring.Yaml.Tag

/-!
# Tokens

What a document is made of once indentation and white space are gone: marks between documents and
around collections, the places of keys and values, and the properties and texts of nodes.
-/

namespace Keyring.Yaml

/-- A token. -/
inductive Token where
  /-- A directive that tells the version. -/
  | versionDirective (major minor : Nat)
  /-- A directive that gives a tag handle its meaning. -/
  | tagDirective (handle : Tag.Handle)
  /-- The mark before a document. -/
  | documentStart
  /-- The mark after a document. -/
  | documentEnd
  /-- The place where a block sequence begins. -/
  | blockSequenceStart
  /-- The place where a block mapping begins. -/
  | blockMappingStart
  /-- The place where a block collection ends. -/
  | blockEnd
  /-- The bracket that opens a flow sequence. -/
  | flowSequenceStart
  /-- The bracket that closes a flow sequence. -/
  | flowSequenceEnd
  /-- The brace that opens a flow mapping. -/
  | flowMappingStart
  /-- The brace that closes a flow mapping. -/
  | flowMappingEnd
  /-- The hyphen before an item of a block sequence. -/
  | blockEntry
  /-- The comma in a flow collection. -/
  | flowEntry
  /-- The place where a key begins. -/
  | key
  /-- The colon before a value. -/
  | value
  /-- A reference to a node. -/
  | alias (name : List Char)
  /-- The name given to a node. -/
  | anchor (name : List Char)
  /-- The tag of a node. -/
  | tag (tag : Tag.Written)
  /-- A scalar. -/
  | scalar (scalar : Scalar)
  deriving DecidableEq, Repr

end Keyring.Yaml
