import XmlMacros.Text.Base64
import XmlMacros.Yaml.Node
import XmlMacros.Yaml.Number

/-!
# What YAML nodes stand for

A scalar has its value at once. A collection gets its parts later: those that wait do so in the
order in which they were met, so of two faults the one that is nested less deeply is found first. A
mapping may take over the entries of others under the key `<<`, and it may stand for a scalar under
the key `=`.
-/

namespace XmlMacros.Yaml

open XmlMacros.Text

/-- Whether a value is an undefined number. -/
def isUndefined : Datum → Bool
  | .float x => x.isNaN
  | _ => false

/-- Whether two keys are the same. An undefined number is only the same as itself. -/
def Key.isSameAs (a b : Key) : Bool :=
  a.value.sameKey b.value
    || (isUndefined a.value && isUndefined b.value && a.origin == b.origin)

/-- Entries with a value written for a key. A key that is there keeps its place. -/
def insertKey (key : Key) (value : NodeId) : List (Key × NodeId) → List (Key × NodeId)
  | [] => [(key, value)]
  | (k, v) :: rest =>
    if k.isSameAs key then (k, value) :: rest else (k, v) :: insertKey key value rest

/-- What is known while nodes get their values. -/
structure Loading where
  nodes : Array Node
  values : Array (Option Value)
  /-- The collections that have no parts yet, the last one first. -/
  waiting : List NodeId

/-- A step that gives values to nodes. -/
abbrev Load := StateT Loading (Except ReadError)

namespace Load

/-- The node with a number. -/
def nodeAt (id : NodeId) : Load Node := do
  return ((← get).nodes[id]?).getD .absent

/-- Gives a node its value. -/
def setValue (id : NodeId) (v : Value) : Load Unit :=
  modify fun l => { l with values := l.values.setIfInBounds id (some v) }

/-! ## Scalars -/

/-- The text of a scalar. A mapping that has the key `=` stands for the scalar under it. The first
argument bounds how often that is so. -/
def scalarText : Nat → NodeId → Load (List Glyph)
  | 0, _ => throw .endless
  | fuel + 1, id => do
    match (← nodeAt id).content with
    | .scalar text => return text
    | .sequence _ => throw .malformed
    | .mapping entries =>
      let under ← entries.filterMapM fun (k, v) => do
        return if (← nodeAt k).kind == .default then some v else none
      match under with
      | v :: _ => scalarText fuel v
      | [] => throw .malformed

/-- The timestamp that a text denotes. -/
def timestampOf (text : List Glyph) : Except ReadError Timestamp :=
  match (Glyph.chars? text).bind fun cs => Timestamp.read? (withoutFinalBreak cs) with
  | none => .error .noTimestamp
  | some t =>
    match t.fault? with
    | some message => .error (.unfit message)
    | none => .ok t

/-- The bytes that a text denotes. -/
def bytesOf (text : List Glyph) : Except ReadError (List UInt8) :=
  match Glyph.chars? text with
  | none => .error .malformed
  | some cs =>
    match if cs.all (·.toNat < 0x80) then Base64.decode? cs else none with
    | some bs => .ok bs
    | none => .error .malformed

/-- The value of a scalar of a sort. -/
def scalarValue (kind : Kind) (text : List Glyph) : Except ReadError Datum :=
  match kind with
  | .null => .ok .null
  | .bool =>
    match truthValues.lookup (String.ofList (Glyph.joined (Glyph.lower text))) with
    | some b => .ok (.bool b)
    | none => .error .noTruthValue
  | .int => .int <$> integerOf text
  | .float => .float <$> doubleOf text
  | .binary => .bytes <$> bytesOf text
  | .timestamp => .moment <$> timestampOf text
  | .text => .ok (.ofGlyphs text)
  | _ => .error .malformed

/-- The value of a node that is no collection. -/
def scalarKey (id : NodeId) : Load Key := do
  let n ← nodeAt id
  if [Kind.merge, .default, .unknown].contains n.kind then throw .malformed
  let text ← scalarText ((← get).nodes.size + 1) id
  if n.kind == .timestamp && !(n.content matches .scalar _) then throw .noScalar
  let isShared := n.kind == .float && namesUndefined text
  return ⟨← scalarValue n.kind text, if isShared then none else some id⟩

/-- Makes sure that a node has a value. A collection has one before it has its parts. -/
def visit (id : NodeId) : Load Unit := do
  if (((← get).values[id]?).bind fun v => v).isSome then return
  match (← nodeAt id).kind with
  | .sequence | .mapping | .set | .pairs =>
    setValue id (.list [])
    modify fun l => { l with waiting := id :: l.waiting }
  | _ => setValue id (.scalar (← scalarKey id))

/-! ## Mappings -/

/-- The entries of a node, if it is a mapping. -/
def entriesAt (id : NodeId) : Load (List (NodeId × NodeId)) := do
  match (← nodeAt id).content with
  | .mapping entries => return entries
  | _ => throw .malformed

/-- Gives a mapping other entries. -/
def setEntries (id : NodeId) (entries : List (NodeId × NodeId)) : Load Unit :=
  modify fun l => { l with
    nodes := l.nodes.modify id fun n => { n with content := .mapping entries } }

/-- Takes the key `=` for a text. -/
def takeLiterally (id : NodeId) : Load Unit :=
  modify fun l => { l with
    nodes := l.nodes.modify id fun n =>
      if n.kind == .default then { n with kind := .text } else n }

/-- The number of entries of all mappings under a merge key. -/
def mergeCount : Load Nat := do
  let nodes := (← get).nodes
  let isMerge (k : NodeId) : Bool := (nodes[k]?).any (·.kind == .merge)
  return nodes.foldl (fun count n =>
    match n.content with
    | .mapping entries => count + entries.countP (isMerge ·.1)
    | _ => count) 0

/-- The place of the first entry under a merge key. -/
def mergePlace? (entries : List (NodeId × NodeId)) : Load (Option Nat) := do
  let marked ← entries.mapM fun (k, _) => return (← nodeAt k).kind == .merge
  return marked.findIdx? fun isMerge => isMerge

/-- Gives a mapping the entries that it takes over, in front of its own. -/
def takeOver (taken entries : List (NodeId × NodeId)) (id : NodeId) : Load Unit := do
  setEntries id (taken ++ entries)
  entries.forM fun (k, _) => takeLiterally k

/-- The mappings that a node under a merge key stands for. -/
def sourcesAt (id : NodeId) : Load (List NodeId) := do
  match (← nodeAt id).content with
  | .mapping _ => return [id]
  | .sequence items => return items
  | .scalar _ => throw .malformed

/-- Puts the entries that a mapping takes over in front of its own. Of several mappings that hand
over entries the first wins, so its entries come last. Every turn takes away an entry under a merge
key, and the first argument bounds their number; `taken` are the entries taken over so far. -/
def merge : Nat → List (NodeId × NodeId) → NodeId → Load Unit
  | 0, taken, id => do
    let entries ← entriesAt id
    match ← mergePlace? entries with
    | none => takeOver taken entries id
    | some _ => throw .malformed
  | fuel + 1, taken, id => do
    let entries ← entriesAt id
    match ← mergePlace? entries with
    | none => takeOver taken entries id
    | some place =>
      setEntries id (entries.eraseIdx place)
      let sources ← sourcesAt ((entries[place]?.map Prod.snd).getD id)
      let handed ← sources.mapM fun s => do
        let _ ← entriesAt s
        merge fuel [] s
        entriesAt s
      merge fuel (taken ++ handed.reverse.flatten) id

/-- The value of a node as a key. Collections cannot be keys. -/
def keyAt (id : NodeId) : Load Key := do
  match ((← get).values[id]?).bind fun v => v with
  | some (.scalar key) => return key
  | _ => throw .malformed

/-- The entries of a mapping as a table. -/
def tableOf (id : NodeId) : Load (List (Key × NodeId)) := do
  let _ ← entriesAt id
  merge (← mergeCount) [] id
  (← entriesAt id).foldlM (fun done (k, v) => do
    visit k
    let key ← keyAt k
    visit v
    return insertKey key v done) []

/-! ## Collections -/

/-- The only entry of a mapping. -/
def pairAt (id : NodeId) : Load (NodeId × NodeId) := do
  match ← entriesAt id with
  | [(k, v)] =>
    visit k
    visit v
    return (k, v)
  | _ => throw .malformed

/-- The items of a node, if it is a sequence. -/
def itemsAt (id : NodeId) : Load (List NodeId) := do
  match (← nodeAt id).content with
  | .sequence items => return items
  | _ => throw .malformed

/-- Gives a collection its parts. -/
def fill (id : NodeId) : Load Unit := do
  match (← nodeAt id).kind with
  | .sequence =>
    let items ← itemsAt id
    items.forM visit
    setValue id (.list items)
  | .pairs => setValue id (.pairs (← (← itemsAt id).mapM pairAt))
  | .set => setValue id (.set ((← tableOf id).map Prod.fst))
  | _ => setValue id (.table (← tableOf id))

/-- Gives all collections that wait their parts, and those that are met then. A collection waits
only once, so there are at most as many rounds as nodes; the first argument bounds them. -/
def settle : Nat → Load Unit
  | 0 => pure ()
  | fuel + 1 => do
    let waiting := (← get).waiting.reverse
    if waiting.isEmpty then return
    modify fun l => { l with waiting := [] }
    waiting.forM fill
    settle fuel

end Load

namespace Graph

/-- The values of the nodes of a text, which may be nested so deeply. -/
def read (depth : Nat) (text : String) : Except ReadError Graph := do
  let d ← Document.read depth text.toList
  let start : Loading := ⟨d.nodes, d.nodes.map fun _ => none, []⟩
  let load : Load Unit := do
    d.root.forM Load.visit
    Load.settle (d.nodes.size + 1)
  let (_, l) ← StateT.run load start
  return ⟨l.values.map (·.getD (.list [])), d.root⟩

end Graph

end XmlMacros.Yaml
