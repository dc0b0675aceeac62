import Keyring.Yaml.Node.Parser
import Keyring.Yaml.Token.Lexer

/-!
# Documents

A text holds at most one document. The anchors of a document get numbers, and an alias has the
number that its anchor had when the alias was read. A number is the count of names so far; an
anchor whose name is taken again may therefore share its number with a later one, and then the
alias leads to the last node of that number.
-/

namespace Keyring.Yaml

/-- A node in which aliases are resolved to numbers. -/
inductive Value where
  /-- A scalar. -/
  | scalar (tag : Option Tag) (scalar : Scalar)
  /-- A sequence. -/
  | sequence (tag : Option Tag) (items : List Value)
  /-- A mapping. -/
  | mapping (tag : Option Tag) (entries : List (Value × Value))
  /-- A reference to the node of a number. -/
  | alias (number : Nat)

instance : Inhabited Value := ⟨.scalar none .empty⟩

/-- The anchors that were read so far. -/
structure Anchors where
  /-- The numbers of the names. -/
  numbers : List (List Char × Nat)
  /-- How many anchors there were. -/
  count : Nat
  /-- The nodes by number, each with the count of anchors before it. -/
  targets : List (Nat × Nat × Value)

namespace Anchors

/-- No anchors. -/
def empty : Anchors := ⟨[], 0, []⟩

/-- Give the anchor of a node its number, if there is one: the count of names so far. -/
def name (a : Anchors) : Option (List Char) → Anchors
  | none => a
  | some name =>
    { a with
      numbers := (name, a.numbers.length) :: a.numbers.filter fun e => e.1 ≠ name
      count := a.count + 1 }

/-- The number that the next anchor gets. -/
def nextNumber (a : Anchors) : Nat := a.numbers.length

/-- Record the node of an anchor. Of several nodes of one number the one that begins last counts. -/
def bind (a : Anchors) (anchor : Option (List Char)) (number count : Nat) (value : Value) :
    Anchors :=
  match anchor with
  | none => a
  | some _ =>
    match a.targets.lookup number with
    | some (later, _) =>
      if count < later then a
      else
        { a with
          targets := (number, count, value) :: a.targets.filter fun e => e.1 ≠ number }
    | none => { a with targets := (number, count, value) :: a.targets }

/-- The node of a number. -/
def target? (a : Anchors) (number : Nat) : Option Value := (a.targets.lookup number).map Prod.snd

end Anchors

namespace Value

mutual

/-- Resolve the aliases in a node; an alias to a name that was not given before is refused. -/
def ofNode? (a : Anchors) : Node → Option (Value × Anchors)
  | .alias name =>
    match a.numbers.lookup name with
    | none => none
    | some number => some (.alias number, a)
  | .scalar p s =>
    let value := Value.scalar p.tag s
    some (value, (a.name p.anchor).bind p.anchor a.nextNumber a.count value)
  | .sequence p items => do
    let (items, inner) ← ofItems? (a.name p.anchor) items
    let value := Value.sequence p.tag items
    return (value, inner.bind p.anchor a.nextNumber a.count value)
  | .mapping p entries => do
    let (entries, inner) ← ofEntries? (a.name p.anchor) entries
    let value := Value.mapping p.tag entries
    return (value, inner.bind p.anchor a.nextNumber a.count value)

/-- Resolve the aliases in the items of a sequence. -/
def ofItems? (a : Anchors) : List Node → Option (List Value × Anchors)
  | [] => some ([], a)
  | item :: items => do
    let (item, a) ← ofNode? a item
    let (items, a) ← ofItems? a items
    return (item :: items, a)

/-- Resolve the aliases in the entries of a mapping. -/
def ofEntries? (a : Anchors) : List (Node × Node) → Option (List (Value × Value) × Anchors)
  | [] => some ([], a)
  | (key, value) :: entries => do
    let (key, a) ← ofNode? a key
    let (value, a) ← ofNode? a value
    let (entries, a) ← ofEntries? a entries
    return ((key, value) :: entries, a)

end

end Value

/-- A document. -/
structure Document where
  /-- The node that it consists of. -/
  root : Value
  /-- The nodes that aliases refer to. -/
  anchors : Anchors

namespace Document

/-- The document of a text without any. -/
def empty : Document := ⟨.scalar none .empty, .empty⟩

/-- The node that a node stands for: aliases lead on. -/
def resolve (d : Document) : Value → Value
  | .alias number => (d.anchors.target? number).getD (.alias number)
  | value => value

/-- Read directives up to the mark that begins a document. At most one may tell the version, which
is 1.1 or 1.2, and none may give a handle a meaning twice. -/
def directives? (version : Bool) (handles : List Tag.Handle) :
    List Token → Option (List Tag.Handle × List Token)
  | .versionDirective major minor :: ts =>
    if version || major ≠ 1 || (minor ≠ 1 && minor ≠ 2) then none
    else directives? true handles ts
  | .tagDirective handle :: ts =>
    if handles.any fun h => h.name = handle.name then none
    else directives? version (handles ++ [handle]) ts
  | .documentStart :: ts => some (handles, ts)
  | _ => none

/-- Whether a token stands outside of documents. -/
def isOutside : Token → Bool
  | .versionDirective _ _ | .tagDirective _ | .documentStart | .documentEnd => true
  | _ => false

/-- Whether a token begins a document that is marked. -/
def beginsMarked : Token → Bool
  | .versionDirective _ _ | .tagDirective _ | .documentStart => true
  | _ => false

/-- Read the node of the first document. -/
def node? (ts : List Token) : Option (Node × List Token) :=
  if ts.head?.any beginsMarked then
    match directives? false [] ts with
    | none => none
    | some (handles, ts) =>
      if ts.isEmpty || ts.head?.any isOutside then some (.empty, ts)
      else Node.ofTokens? (handles ++ Tag.standard) ts
  else Node.ofTokens? Tag.standard ts

/-- The document of a sequence of tokens. There may not be a second one. -/
def ofTokens? (ts : List Token) : Option Document :=
  if ts.isEmpty then some empty
  else
    match node? ts with
    | none => none
    | some (node, rest) =>
      if rest.all fun t => t = .documentEnd then
        (Value.ofNode? .empty node).map fun (root, anchors) => ⟨root, anchors⟩
      else none

/-- The document of a text. -/
def parse? (text : List Char) : Option Document := (Token.ofText? text).bind ofTokens?

end Document

end Keyring.Yaml
