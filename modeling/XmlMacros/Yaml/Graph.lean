import XmlMacros.Datum
import XmlMacros.Yaml.Error

/-!
# Loaded values

What a loaded text stands for keeps the shape of the text (`Graph`): two places can share a value,
and a collection may hold itself. `Graph.datum` looks at a value on its own and puts a mark where a
collection comes again inside of itself.

How a text is loaded is left open (`Loader`): nothing that is said of configurations depends on it.
-/

namespace XmlMacros.Yaml

/-- The number of a node in its document. -/
abbrev NodeId := Nat

/-- A value that may be a key, and the node that it was made for. There is only one `.nan`, so it is
made for none. -/
structure Key where
  value : Datum
  origin : Option NodeId

/-- What a node stands for. The parts of a collection are nodes, but keys are values. -/
inductive Value
  | scalar (key : Key)
  | list (items : List NodeId)
  | pairs (entries : List (NodeId × NodeId))
  | set (members : List Key)
  | table (entries : List (Key × NodeId))

/-- The values of a document, and the one that the others belong to, if there is any. -/
structure Graph where
  values : Array Value
  root : Option NodeId

/-- What loads texts: it gives the values that a text stands for, or the reason why there
are none. -/
class Loader where
  safeLoad : String → Except ReadError Graph

export Loader (safeLoad)

namespace Graph

/-- A value with the collections around it, which are not looked at again. The first argument bounds
their number. -/
def datumInside (g : Graph) : Nat → List NodeId → NodeId → Datum
  | 0, _, _ => .null
  | fuel + 1, path, id =>
    let inner := g.datumInside fuel (id :: path)
    match g.values[id]? with
    | none => .null
    | some (.scalar key) => key.value
    | some (.set members) => .set (Datum.arranged (members.map Key.value))
    | some (.list items) => if path.contains id then .cycle false else .list (items.map inner)
    | some (.pairs entries) =>
      if path.contains id then .cycle false
      else .list (entries.map fun (k, v) => .pair (inner k) (inner v))
    | some (.table entries) =>
      if path.contains id then .cycle true
      else .table (entries.map fun (k, v) => (k.value, inner v))

/-- The value of a node on its own. -/
def datum (g : Graph) (id : NodeId) : Datum :=
  g.datumInside (g.values.size + 1) [] id

/-- The entries of a node that is a table. -/
def table? (g : Graph) (id : NodeId) : Option (List (Datum × NodeId)) :=
  match g.values[id]? with
  | some (.table entries) => some (entries.map fun (k, v) => (k.value, v))
  | _ => none

/-- The value of a node in which the parts of a table are each looked at on their own. -/
def spread (g : Graph) (id : NodeId) : Datum :=
  match g.table? id with
  | some entries => .table (entries.map fun (k, v) => (k, g.datum v))
  | none => g.datum id

end Graph

end XmlMacros.Yaml
