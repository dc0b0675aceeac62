import Keyring.Yaml.Node
import Keyring.Yaml.Token

/-!
# From tokens to nodes

The grammar of nodes over tokens. A node that is left out is the empty scalar. The functions that
read nodes call each other, and two calls in a row read at least one token, so their depth is
bounded by a number that `Node.ofTokens?` computes from the number of tokens.
-/

namespace Keyring.Yaml.Node

/-- Read the anchor and the tag before a node, in either order. -/
def properties? (handles : List Tag.Handle) : List Token → Option (Properties × List Token)
  | .anchor name :: .tag tag :: ts | .tag tag :: .anchor name :: ts =>
    (tag.resolve? handles).map fun tag => (⟨some name, some tag⟩, ts)
  | .anchor name :: ts => some (⟨some name, none⟩, ts)
  | .tag tag :: ts => (tag.resolve? handles).map fun tag => (⟨none, some tag⟩, ts)
  | ts => some (.none, ts)

/-- The tag that says nothing but that it is there. -/
def bareTag : Tag := Text.Utf8.ofString "!"

/-- The properties of a scalar that is written, for which the bare tag says nothing. -/
def scalarProperties (p : Properties) : Properties :=
  if p.tag = some bareTag then { p with tag := none } else p

/-- Whether a block entry is left out before a token. -/
def endsBlockItem : Token → Bool
  | .blockEntry | .blockEnd => true
  | _ => false

/-- Whether an entry of a sequence without indentation is left out before a token. -/
def endsIndentlessItem : Token → Bool
  | .blockEntry | .key | .value | .blockEnd => true
  | _ => false

/-- Whether a key or value of a block mapping is left out before a token. -/
def endsBlockPart : Token → Bool
  | .key | .value | .blockEnd => true
  | _ => false

/-- Whether a key in a flow collection is left out before a token. -/
def endsFlowKey (close : Token) (t : Token) : Bool := t = .value || t = .flowEntry || t = close

/-- Whether a value in a flow collection is left out before a token. -/
def endsFlowValue (close : Token) (t : Token) : Bool := t = .flowEntry || t = close

/-- Whether a test holds of the next token. -/
def next (test : Token → Bool) (ts : List Token) : Bool := ts.head?.any test

/-- Go past the comma before all but the first part of a flow collection. -/
def comma? (first : Bool) (ts : List Token) : Option (List Token) :=
  if first then some ts
  else
    match ts with
    | .flowEntry :: ts => some ts
    | _ => none

mutual

/-- Read a node. `block` says whether it may be a block collection, and `indentless` whether it may
be a block sequence without indentation of its own. -/
def read? (handles : List Tag.Handle) (block indentless : Bool) :
    Nat → List Token → Option (Node × List Token)
  | 0, _ => none
  | _ + 1, .alias name :: ts => some (.alias name, ts)
  | fuel + 1, ts =>
    match properties? handles ts with
    | none => none
    | some (p, .blockEntry :: ts) =>
      if indentless then
        (readIndentless? handles fuel (.blockEntry :: ts)).map fun (items, ts) =>
          (.sequence p items, ts)
      else if p = .none then none
      else some (.scalar p .empty, .blockEntry :: ts)
    | some (p, .scalar s :: ts) => some (.scalar (scalarProperties p) s, ts)
    | some (p, .flowSequenceStart :: ts) =>
      (readFlowItems? handles true fuel ts).map fun (items, ts) => (.sequence p items, ts)
    | some (p, .flowMappingStart :: ts) =>
      (readFlowEntries? handles true fuel ts).map fun (entries, ts) => (.mapping p entries, ts)
    | some (p, .blockSequenceStart :: ts) =>
      if block then
        (readBlockItems? handles fuel ts).map fun (items, ts) => (.sequence p items, ts)
      else if p = .none then none
      else some (.scalar p .empty, .blockSequenceStart :: ts)
    | some (p, .blockMappingStart :: ts) =>
      if block then
        (readBlockEntries? handles fuel ts).map fun (entries, ts) => (.mapping p entries, ts)
      else if p = .none then none
      else some (.scalar p .empty, .blockMappingStart :: ts)
    | some (p, ts) => if p = .none then none else some (.scalar p .empty, ts)

/-- Read a node unless it is left out. -/
def readOr? (handles : List Tag.Handle) (block indentless : Bool) (ends : Token → Bool) :
    Nat → List Token → Option (Node × List Token)
  | 0, _ => none
  | fuel + 1, ts =>
    if next ends ts then some (.empty, ts) else read? handles block indentless fuel ts

/-- Read the value after a key, which is left out together with its colon. -/
def readValue? (handles : List Tag.Handle) (block indentless : Bool) (ends : Token → Bool) :
    Nat → List Token → Option (Node × List Token)
  | 0, _ => none
  | fuel + 1, .value :: ts => readOr? handles block indentless ends fuel ts
  | _ + 1, ts => some (.empty, ts)

/-- Read the items of a block sequence and its end. -/
def readBlockItems? (handles : List Tag.Handle) : Nat → List Token → Option (List Node × List Token)
  | 0, _ => none
  | fuel + 1, .blockEntry :: ts => do
    let (item, ts) ← readOr? handles true false endsBlockItem fuel ts
    let (items, ts) ← readBlockItems? handles fuel ts
    return (item :: items, ts)
  | _ + 1, .blockEnd :: ts => some ([], ts)
  | _ + 1, _ => none

/-- Read the items of a block sequence without indentation of its own. -/
def readIndentless? (handles : List Tag.Handle) : Nat → List Token → Option (List Node × List Token)
  | 0, _ => none
  | fuel + 1, .blockEntry :: ts => do
    let (item, ts) ← readOr? handles true false endsIndentlessItem fuel ts
    let (items, ts) ← readIndentless? handles fuel ts
    return (item :: items, ts)
  | _ + 1, ts => some ([], ts)

/-- Read the entries of a block mapping and its end. -/
def readBlockEntries? (handles : List Tag.Handle) :
    Nat → List Token → Option (List (Node × Node) × List Token)
  | 0, _ => none
  | fuel + 1, .key :: ts => do
    let (key, ts) ← readOr? handles true true endsBlockPart fuel ts
    let (value, ts) ← readValue? handles true true endsBlockPart fuel ts
    let (entries, ts) ← readBlockEntries? handles fuel ts
    return ((key, value) :: entries, ts)
  | _ + 1, .blockEnd :: ts => some ([], ts)
  | _ + 1, _ => none

/-- Read a key and its value as an item of a flow sequence. A key that is left out takes the token
after it along. -/
def readPair? (handles : List Tag.Handle) : Nat → List Token → Option (Node × List Token)
  | 0, _ => none
  | fuel + 1, ts => do
    let (key, ts) ←
      if next (endsFlowKey .flowSequenceEnd) ts then some (Node.empty, ts.tail)
      else read? handles false false fuel ts
    let (value, ts) ←
      readValue? handles false false (endsFlowValue .flowSequenceEnd) fuel ts
    return (.mapping .none [(key, value)], ts)

/-- Read the items of a flow sequence and its end. -/
def readFlowItems? (handles : List Tag.Handle) (first : Bool) :
    Nat → List Token → Option (List Node × List Token)
  | 0, _ => none
  | _ + 1, .flowSequenceEnd :: ts => some ([], ts)
  | fuel + 1, ts =>
    match comma? first ts with
    | none => none
    | some (.flowSequenceEnd :: ts) => some ([], ts)
    | some (.key :: ts) => do
      let (item, ts) ← readPair? handles fuel ts
      let (items, ts) ← readFlowItems? handles false fuel ts
      return (item :: items, ts)
    | some ts => do
      let (item, ts) ← read? handles false false fuel ts
      let (items, ts) ← readFlowItems? handles false fuel ts
      return (item :: items, ts)

/-- Read the entries of a flow mapping and its end. -/
def readFlowEntries? (handles : List Tag.Handle) (first : Bool) :
    Nat → List Token → Option (List (Node × Node) × List Token)
  | 0, _ => none
  | _ + 1, .flowMappingEnd :: ts => some ([], ts)
  | fuel + 1, ts =>
    match comma? first ts with
    | none => none
    | some (.flowMappingEnd :: ts) => some ([], ts)
    | some (.key :: ts) => do
      let (key, ts) ← readOr? handles false false (endsFlowKey .flowMappingEnd) fuel ts
      let (value, ts) ← readValue? handles false false (endsFlowValue .flowMappingEnd) fuel ts
      let (entries, ts) ← readFlowEntries? handles false fuel ts
      return ((key, value) :: entries, ts)
    | some ts => do
      let (key, ts) ← read? handles false false fuel ts
      let (entries, ts) ← readFlowEntries? handles false fuel ts
      return ((key, .empty) :: entries, ts)

end

/-- Read a node of a document; the depth of reading is bounded by the number of tokens. -/
def ofTokens? (handles : List Tag.Handle) (ts : List Token) : Option (Node × List Token) :=
  read? handles true false (4 * ts.length + 4) ts

end Keyring.Yaml.Node
