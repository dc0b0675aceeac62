import Keyring.Yaml.Scalar
import Keyring.Yaml.Tag

/-!
# Nodes

The tree that a document stands for: scalars, sequences and mappings, with their tags and anchors,
and aliases, which refer to anchors.
-/

namespace Keyring.Yaml

/-- What is said about a node before it. -/
structure Properties where
  /-- The name given to it. -/
  anchor : Option (List Char)
  /-- What kind of value it is. -/
  tag : Option Tag
  deriving DecidableEq, Repr

/-- No properties. -/
def Properties.none : Properties := ⟨.none, .none⟩

/-- A node. -/
inductive Node where
  /-- A scalar. -/
  | scalar (properties : Properties) (scalar : Scalar)
  /-- A sequence. -/
  | sequence (properties : Properties) (items : List Node)
  /-- A mapping. -/
  | mapping (properties : Properties) (entries : List (Node × Node))
  /-- A reference to the node of a name. -/
  | alias (name : List Char)

namespace Node

/-- The node that stands where nothing is written. -/
def empty : Node := .scalar .none .empty

instance : Inhabited Node := ⟨empty⟩

end Node

end Keyring.Yaml
