import XmlMacros.Yaml.Graph
import XmlMacros.Yaml.Kind
import XmlMacros.Yaml.Token

/-!
# Nodes of a YAML document

The graph that the tokens of a text describe: scalars, sequences and mappings. A node is known by
its number, so an alias can stand for a node around it, and two places can share one node.
-/

namespace XmlMacros.Yaml

open XmlMacros.Text

/-- What a node holds. -/
inductive Content
  | scalar (text : List Glyph)
  | sequence (items : List NodeId)
  | mapping (entries : List (NodeId × NodeId))
deriving DecidableEq, Repr

/-- A node. -/
structure Node where
  kind : Kind
  content : Content
deriving DecidableEq, Repr

/-- The node where nothing is written. -/
def Node.absent : Node := ⟨.null, .scalar []⟩

/-- The nodes of a text, and the one that the others belong to, if the text holds any. -/
structure Document where
  nodes : Array Node
  root : Option NodeId

/-- What is left to read, what follows it, and what was met so far. -/
structure Reading where
  tokens : Tokens
  nodes : Array Node
  anchors : List (String × NodeId)
  handles : List (String × String)

/-- A step that reads tokens and may fail. -/
abbrev Read := StateT Reading (Except ReadError)

namespace Read

/-- The next token. Where there is none, the text has a fault. -/
def peek : Read Token := do
  match (← get).tokens with
  | ⟨t :: _, _⟩ => return t
  | ⟨[], fault⟩ => throw fault

/-- Passes the next token. -/
def drop : Read Unit :=
  modify fun r => { r with tokens := ⟨r.tokens.list.tail, r.tokens.fault⟩ }

/-- Passes the next token if it is the one given. -/
def accept (t : Token) : Read Bool := do
  if (← peek) == t then
    drop
    return true
  else return false

/-- Passes the next token, which must be the one given. -/
def expect (t : Token) : Read Unit := do
  if !(← accept t) then throw .malformed

/-- Whether the next token is one of some. -/
def atAny (ts : List Token) : Read Bool := do
  return ts.contains (← peek)

/-- Reads the anchor in front of a node. -/
def anchor? : Read (Option String) := do
  match ← peek with
  | .anchor name =>
    drop
    return some name
  | _ => return none

/-- Reads the tag in front of a node. -/
def tag? : Read (Option (Option String × String)) := do
  match ← peek with
  | .tag handle suffix =>
    drop
    return some (handle, suffix)
  | _ => return none

/-- The text of a tag. Its handle must be known. -/
def tagText (handle : Option String) (suffix : String) : Read String := do
  match handle with
  | none => return suffix
  | some handle =>
    match (← get).handles.lookup handle with
    | some start => return start ++ suffix
    | none => throw .malformed

/-- Reads the anchor and the tag in front of a node, in either order. -/
def properties : Read (Option String × Option String) := do
  let first ← anchor?
  let tag ← tag?
  let anchor ← if first.isNone && tag.isSome then anchor? else pure first
  match tag with
  | none => return (anchor, none)
  | some (handle, suffix) => return (anchor, some (← tagText handle suffix))

/-- Adds a node. -/
def add (n : Node) : Read NodeId :=
  modifyGet fun r => (r.nodes.size, { r with nodes := r.nodes.push n })

/-- Adds a node and gives it a name. No name is given twice. -/
def named (anchor : Option String) (n : Node) : Read NodeId := do
  match anchor with
  | none => add n
  | some a =>
    if ((← get).anchors.lookup a).isSome then throw .malformed
    let id ← add n
    modify fun r => { r with anchors := (a, id) :: r.anchors }
    return id

/-- Adds a collection. It has its name before its parts are read, so they may refer to it. -/
def collection (anchor : Option String) (kind : Kind) (parts : Read Content) : Read NodeId := do
  let id ← named anchor ⟨kind, .scalar []⟩
  let content ← parts
  modify fun r => { r with nodes := r.nodes.setIfInBounds id ⟨kind, content⟩ }
  return id

/-- The node that an alias stands for. -/
def lookup (a : String) : Read NodeId := do
  match (← get).anchors.lookup a with
  | some id => return id
  | none => throw .malformed

/-- The sort of a collection. The tag `!` leaves it open. -/
def kindOf (tag : Option String) (ifOpen : Kind) : Kind :=
  match tag with
  | none | some "!" => ifOpen
  | some tag => .ofTag tag

/-- The tokens before which a part of a block mapping is missing. -/
def mappingStops : List Token := [.key, .value, .blockEnd]

mutual

/-- Reads a node. In a block collection `block` is true; where entries may stand without indentation
`flush` is true. The last two arguments bound the number of steps and the depth. -/
def node (block flush : Bool) : Nat → Nat → Read NodeId
  | 0, _ => throw .endless
  | fuel + 1, depth => do
    if let .alias a ← peek then
      drop
      return ← lookup a
    if depth == 0 then throw .endless
    let (anchor, tag) ← properties
    let sequence (items : Read (List NodeId)) : Read NodeId :=
      collection anchor (kindOf tag .sequence) (Content.sequence <$> items)
    let mapping (entries : Read (List (NodeId × NodeId))) : Read NodeId :=
      collection anchor (kindOf tag .mapping) (Content.mapping <$> entries)
    let empty : Read NodeId :=
      if anchor.isSome || tag.isSome then named anchor ⟨kindOf tag .null, .scalar []⟩
      else throw .malformed
    match ← peek with
    | .scalar text plain =>
      drop
      let ifOpen := if plain || tag.isSome then Kind.ofPlain text else .text
      named anchor ⟨kindOf tag ifOpen, .scalar text⟩
    | .flowSequenceStart =>
      drop
      sequence (flowItems fuel (depth - 1) true)
    | .flowMappingStart =>
      drop
      mapping (flowEntries fuel (depth - 1) true)
    | .entry => if block && flush then sequence (flushItems fuel (depth - 1)) else empty
    | .sequenceStart =>
      if !block then empty
      else
        drop
        sequence (items fuel (depth - 1))
    | .mappingStart =>
      if !block then empty
      else
        drop
        mapping (entries fuel (depth - 1))
    | _ => empty
termination_by structural fuel => fuel

/-- Reads a node, unless one of some tokens shows that it is missing. -/
def nodeUnless (stops : List Token) (block flush : Bool) : Nat → Nat → Read NodeId
  | 0, _ => throw .endless
  | fuel + 1, depth => do
    if ← atAny stops then add .absent else node block flush fuel depth
termination_by structural fuel => fuel

/-- Reads the items of a block sequence. -/
def items : Nat → Nat → Read (List NodeId)
  | 0, _ => throw .endless
  | fuel + 1, depth => do
    if ← accept .entry then
      let item ← nodeUnless [.entry, .blockEnd] true false fuel depth
      return item :: (← items fuel depth)
    else
      expect .blockEnd
      return []
termination_by structural fuel => fuel

/-- Reads the items of a block sequence that is not indented. -/
def flushItems : Nat → Nat → Read (List NodeId)
  | 0, _ => throw .endless
  | fuel + 1, depth => do
    if ← accept .entry then
      let item ← nodeUnless (.entry :: mappingStops) true false fuel depth
      return item :: (← flushItems fuel depth)
    else return []
termination_by structural fuel => fuel

/-- Reads the entries of a block mapping. -/
def entries : Nat → Nat → Read (List (NodeId × NodeId))
  | 0, _ => throw .endless
  | fuel + 1, depth => do
    if ← accept .key then
      let k ← nodeUnless mappingStops true true fuel depth
      let v ← if ← accept .value then nodeUnless mappingStops true true fuel depth
        else add .absent
      return (k, v) :: (← entries fuel depth)
    else
      expect .blockEnd
      return []
termination_by structural fuel => fuel

/-- Reads a key of a flow collection and its value. -/
def flowEntry (close : Token) : Nat → Nat → Read (NodeId × NodeId)
  | 0, _ => throw .endless
  | fuel + 1, depth => do
    let k ← nodeUnless [.value, .flowEntry, close] false false fuel depth
    let v ← if ← accept .value then nodeUnless [.flowEntry, close] false false fuel depth
      else add .absent
    return (k, v)
termination_by structural fuel => fuel

/-- Reads the items of a flow sequence. A key makes a mapping with one entry. -/
def flowItems : Nat → Nat → Bool → Read (List NodeId)
  | 0, _, _ => throw .endless
  | fuel + 1, depth, first => do
    if ← accept .flowSequenceEnd then return []
    if !first then expect .flowEntry
    if ← accept .flowSequenceEnd then return []
    let item ← if ← accept .key then
        collection none .mapping do return .mapping [← flowEntry .flowSequenceEnd fuel depth]
      else node false false fuel depth
    return item :: (← flowItems fuel depth false)
termination_by structural fuel => fuel

/-- Reads the entries of a flow mapping. A node without a value stands for a key. -/
def flowEntries : Nat → Nat → Bool → Read (List (NodeId × NodeId))
  | 0, _, _ => throw .endless
  | fuel + 1, depth, first => do
    if ← accept .flowMappingEnd then return []
    if !first then expect .flowEntry
    if ← accept .flowMappingEnd then return []
    let entry ← if ← accept .key then flowEntry .flowMappingEnd fuel depth
      else do
        let k ← node false false fuel depth
        pure (k, ← add .absent)
    return entry :: (← flowEntries fuel depth false)
termination_by structural fuel => fuel

end

/-- Reads directives. At most one of them gives a version, and no handle is given twice. -/
def directives : Nat → Bool → List (String × String) → Read (List (String × String))
  | 0, _, handles => return handles
  | fuel + 1, versioned, handles => do
    match ← peek with
    | .version major =>
      if versioned || major != 1 then throw .malformed
      drop
      directives fuel true handles
    | .handle handle start =>
      if (handles.lookup handle).isSome then throw .malformed
      drop
      directives fuel versioned ((handle, start) :: handles)
    | .otherDirective =>
      drop
      directives fuel versioned handles
    | _ => return handles

/-- The handles that need no directive. -/
def standardHandles : List (String × String) :=
  [("!", "!"), ("!!", "tag:yaml.org,2002:")]

/-- Whether the next token stands in front of a document. -/
def atPreamble : Read Bool := do
  match ← peek with
  | .version _ | .handle _ _ | .otherDirective | .documentStart => return true
  | _ => return false

/-- Reads the content of a document, in which nodes may be nested so deeply. -/
def document (depth fuel : Nat) : Read (Option NodeId) := do
  if (← peek) == .streamEnd then return none
  if ← atPreamble then
    let handles ← directives fuel false []
    expect .documentStart
    modify fun r => { r with handles := handles ++ standardHandles }
    if (← atPreamble) || (← atAny [.documentEnd, .streamEnd]) then
      return some (← add .absent)
  return some (← node true false fuel depth)

/-- Passes the marks at the end of a document. -/
def documentEnds : Nat → Read Unit
  | 0 => pure ()
  | fuel + 1 => do if ← accept .documentEnd then documentEnds fuel

/-- Reads a stream that holds at most one document. -/
def stream (depth fuel : Nat) : Read (Option NodeId) := do
  let content ← document depth fuel
  documentEnds fuel
  expect .streamEnd
  return content

end Read

/-- The document that a text holds. Its nodes may be nested so deeply. -/
def Document.read (depth : Nat) (cs : List Char) : Except ReadError Document := do
  let tokens := Tokens.read cs
  let start : Reading := ⟨tokens, #[], [], Read.standardHandles⟩
  let (root, r) ← StateT.run (Read.stream depth (4 * tokens.list.length + 8)) start
  return ⟨r.nodes, root⟩

end XmlMacros.Yaml
