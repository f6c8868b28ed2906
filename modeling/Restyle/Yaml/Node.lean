import Restyle.Yaml.Token

/-!
# Nodes

The first document of a stream as a tree.  A reference to an anchor holds the node it refers to; one
that stands inside that very node holds nothing.

Documents after the first are not looked at, but the reader looks two tokens ahead, so a fault of the
tokens close behind the first document is still seen.
-/

namespace Restyle.Yaml

inductive Node where
  | scalar (line : Nat) (tag : Option (List Char)) (style : ScalarStyle) (text : List Char)
  | sequence (line : Nat) (tag : Option (List Char)) (items : List Node)
  | mapping (line : Nat) (tag : Option (List Char)) (pairs : List (Node × Node))
  | reference (line : Nat) (name : List Char) (target : Option Node)
  deriving Repr

/-- The line of a node, counted from one. -/
def Node.line : Node → Nat
  | .scalar n .. | .sequence n .. | .mapping n .. | .reference n .. => n + 1

/-- An anchor, the number it was given and its node, once that is complete. -/
structure Anchor where
  name : List Char
  number : Nat
  node : Option Node

structure Reader where
  tokens : List Token
  /-- A fault follows the tokens. -/
  faulty : Bool
  anchors : List Anchor := []
  /-- What the handles of tags stand for. -/
  handles : List (List Char × List Char) := []

/-- Steps of reading: they take tokens, or fail. -/
abbrev Reading := StateT Reader Option

namespace Reading

/-- The token ahead. -/
def peek : Reading Token := fun r =>
  match r.tokens with
  | t :: _ :: _ :: _ => some (t, r)
  | t :: _ => if r.faulty then none else some (t, r)
  | [] => none

def skip : Reading Unit :=
  modify fun r => { r with tokens := r.tokens.tail }

/-- The kind of the token ahead. -/
def ahead : Reading Token.Kind := do
  return (← peek).kind

/-- Drops the token ahead and gives the kind of the next one. -/
def step : Reading Token.Kind := do
  skip
  ahead

/-- Notes an anchor whose node is about to be read. -/
def drop (name : Option (List Char)) : Reading (Option Nat) := do
  match name with
  | none => return none
  | some name =>
    let number := (← get).anchors.length
    modify fun r => { r with anchors := ⟨name, number, none⟩ :: r.anchors }
    return some number

/-- Notes the node of an anchor. -/
def moor (number : Option Nat) (node : Node) : Reading Node := do
  let fill (a : Anchor) : Anchor :=
    if number == some a.number then { a with node := some node } else a
  modify fun r => { r with anchors := r.anchors.map fill }
  return node

def standardTags : List Char := "tag:yaml.org,2002:".toList

/-- A tag as it is written in short: with two exclamation marks if it is a standard one. -/
def shortTag (tag : List Char) : List Char :=
  if standardTags.isPrefixOf tag then '!' :: '!' :: tag.drop standardTags.length else tag

/-- The tag of a handle and a rest. -/
def fullTag (handle rest : List Char) : Reading (List Char) := do
  if handle.isEmpty then return rest
  match (← get).handles.lookup handle with
  | some start => return start ++ rest
  | none => failure

/-- Anchor and tag before a node, in either order, and the line of the first of them. -/
def properties : Reading (Option (List Char) × Option (List Char) × Nat) := do
  let line := (← peek).line
  let anchor? : Reading (Option (List Char)) := do
    match ← ahead with
    | .anchor name => skip; return some name
    | _ => return none
  let tag? : Reading (Option (List Char)) := do
    match ← ahead with
    | .tag handle rest => skip; some <$> fullTag handle rest
    | _ => return none
  match ← anchor? with
  | some name => return (some name, ← tag?, line)
  | none =>
    match ← tag? with
    | some tag => return (← anchor?, some tag, line)
    | none => return (none, none, line)

/-- A tag that says something about the node. -/
def telling : Option (List Char) → Option (List Char)
  | some ['!'] => none
  | some tag => some (shortTag tag)
  | none => none

def empty (line : Nat) : Node :=
  .scalar line none .plain []

mutual

/-- A node.  In a block it may be a block, and where `indentless` a sequence that is not indented. -/
def node : Nat → (block indentless : Bool) → Reading Node
  | 0, _, _ => failure
  | fuel + 1, block, indentless => do
    if let .reference name := ← ahead then
      let line := (← peek).line
      skip
      match (← get).anchors.find? (·.name == name) with
      | some a => return .reference line name a.node
      | none => failure
    let (anchor, tag, line) ← properties
    let tagged := telling tag
    let number ← drop anchor
    match ← ahead with
    | .scalar text style =>
      skip
      moor number (.scalar line tagged style text)
    | .flowSequenceStart =>
      skip
      moor number (.sequence line tagged (← flowSequence fuel true))
    | .flowMappingStart =>
      skip
      moor number (.mapping line tagged (← flowMapping fuel true))
    | kind =>
      if indentless && kind == .blockEntry then
        moor number (.sequence line tagged (← indentlessSequence fuel))
      else if block && kind == .blockSequenceStart then
        skip
        moor number (.sequence line tagged (← blockSequence fuel))
      else if block && kind == .blockMappingStart then
        skip
        moor number (.mapping line tagged (← blockMapping fuel))
      else if anchor.isSome || tag.isSome then
        moor number (.scalar line tagged .plain [])
      else failure

/-- The entries of a block sequence up to its end. -/
def blockSequence : Nat → Reading (List Node)
  | 0 => failure
  | fuel + 1 => do
    match ← ahead with
    | .blockEntry =>
      let line := (← peek).line
      let kind ← step
      let item ← if kind == .blockEntry || kind == .blockEnd then pure (empty line)
        else node fuel true false
      return item :: (← blockSequence fuel)
    | .blockEnd =>
      skip
      return []
    | _ => failure

/-- The entries of a sequence that is not indented further than the mapping it stands in. -/
def indentlessSequence : Nat → Reading (List Node)
  | 0 => failure
  | fuel + 1 => do
    match ← ahead with
    | .blockEntry =>
      let line := (← peek).line
      let kind ← step
      let item ←
        if kind == .blockEntry || kind == .key || kind == .value || kind == .blockEnd then
          pure (empty line)
        else node fuel true false
      return item :: (← indentlessSequence fuel)
    | _ => return []

/-- What stands behind a mark of a block mapping, if anything. -/
def blockPart : Nat → Reading Node
  | 0 => failure
  | fuel + 1 => do
    let line := (← peek).line
    let kind ← step
    if kind == .key || kind == .value || kind == .blockEnd then return empty line
    else node fuel true true

def blockMapping : Nat → Reading (List (Node × Node))
  | 0 => failure
  | fuel + 1 => do
    match ← ahead with
    | .key =>
      let key ← blockPart fuel
      let value ← if (← ahead) == .value then blockPart fuel else pure (empty (← peek).line)
      return (key, value) :: (← blockMapping fuel)
    | .blockEnd =>
      skip
      return []
    | _ => failure

def flowSequence : Nat → (first : Bool) → Reading (List Node)
  | 0, _ => failure
  | fuel + 1, first => do
    if (← ahead) == .flowSequenceEnd then
      skip
      return []
    if !first then
      if (← ahead) == .flowEntry then skip else failure
    match ← ahead with
    | .flowSequenceEnd =>
      skip
      return []
    | .key =>
      -- a mapping of one pair without braces
      let line := (← peek).line
      let kind ← step
      let key ←
        if kind == .value || kind == .flowEntry || kind == .flowSequenceEnd then
          skip
          pure (empty line)
        else node fuel false false
      let value ← flowValue fuel .flowSequenceEnd
      return .mapping line none [(key, value)] :: (← flowSequence fuel false)
    | _ =>
      let item ← node fuel false false
      return item :: (← flowSequence fuel false)

/-- The value of a pair in a flow collection, if there is one. -/
def flowValue : Nat → (close : Token.Kind) → Reading Node
  | 0, _ => failure
  | fuel + 1, close => do
    let line := (← peek).line
    if (← ahead) == .value then
      let kind ← step
      if kind == .flowEntry || kind == close then return empty line
      else node fuel false false
    else return empty line

def flowMapping : Nat → (first : Bool) → Reading (List (Node × Node))
  | 0, _ => failure
  | fuel + 1, first => do
    if (← ahead) == .flowMappingEnd then
      skip
      return []
    if !first then
      if (← ahead) == .flowEntry then skip else failure
    match ← ahead with
    | .flowMappingEnd =>
      skip
      return []
    | .key =>
      let line := (← peek).line
      let kind ← step
      let key ←
        if kind == .value || kind == .flowEntry || kind == .flowMappingEnd then pure (empty line)
        else node fuel false false
      let value ← flowValue fuel .flowMappingEnd
      return (key, value) :: (← flowMapping fuel false)
    | _ =>
      let line := (← peek).line
      let key ← node fuel false false
      return (key, empty line) :: (← flowMapping fuel false)

end

/-! ### Documents -/

def defaultHandles : List (List Char × List Char) :=
  [(['!'], ['!']), (['!', '!'], standardTags)]

/-- Directives before a document: at most one version, which has to be 1.1, and no handle twice. -/
def directives : Nat → (version : Bool) → List (List Char × List Char) →
    Reading (List (List Char × List Char))
  | 0, _, _ => failure
  | fuel + 1, version, handles => do
    match ← ahead with
    | .version major minor =>
      if version || major != 1 || minor != 1 then failure
      skip
      directives fuel true handles
    | .tagDirective handle start =>
      if (handles.lookup handle).isSome then failure
      skip
      directives fuel version (handles ++ [(handle, start)])
    | _ => return handles

/-- The first document, unless the stream is empty. -/
def document : Reading (Option Node) := do
  skip
  let fuel := 4 * (← get).tokens.length + 8
  let read : Reading (Option Node) := do
    let root ← node fuel true false
    -- the token behind the document is looked at
    discard peek
    return some root
  match ← ahead with
  | .streamEnd => return none
  | .version .. | .tagDirective .. | .documentStart =>
    let handles ← directives fuel false []
    modify fun r => { r with handles := handles ++ defaultHandles }
    if (← ahead) != .documentStart then failure
    let line := (← peek).line
    match ← step with
    | .version .. | .tagDirective .. | .documentStart | .documentEnd | .streamEnd =>
      return some (empty line)
    | _ => read
  | _ =>
    modify fun r => { r with handles := defaultHandles }
    read

end Reading

/-- What a stream holds. -/
inductive Document where
  | malformed
  | absent
  | tree (root : Node)

def Document.parse (data : Bytes) : Document :=
  match source? data with
  | none => .malformed
  | some text =>
    let (ts, faulty) := tokens text
    match Reading.document.run { tokens := ts, faulty := faulty } with
    | none => .malformed
    | some (none, _) => .absent
    | some (some root, _) => .tree root

end Restyle.Yaml
