/-!
# Document trees

The nodes of a document as reading gives them and expansion produces them. Attributes and children
are kept in order; texts are kept apart as they are, also empty ones.
-/

namespace XmlMacros.Markup

/-- An attribute of an element. -/
structure Attr where
  name : String
  /-- The value, if there is one. A declaration that takes back the default namespace has none. -/
  value? : Option String
deriving DecidableEq, Repr

/-- The value of an attribute as it is written. -/
def Attr.value (a : Attr) : String :=
  a.value?.getD ""

/-- A node below the document. -/
inductive Node
  | element (tag : String) (attrs : List Attr) (children : List Node)
  | text (data : String)
  | cdata (data : String)
  | comment (data : String)
  | instruction (target data : String)
deriving Repr

instance : Inhabited Node := ⟨.text ""⟩

/-- An element: what the constructor `Node.element` holds. -/
structure Element where
  tag : String
  attrs : List Attr
  children : List Node
deriving Repr

/-- The element as a node. -/
def Element.node (e : Element) : Node :=
  .element e.tag e.attrs e.children

/-- What may stand around the root of a document: comments and instructions. -/
inductive Misc
  | comment (data : String)
  | instruction (target data : String)
deriving DecidableEq, Repr

/-- A comment or instruction as a node. -/
def Misc.node : Misc → Node
  | .comment data => .comment data
  | .instruction target data => .instruction target data

/-- A whole document: its root element between the comments and instructions that surround it. -/
structure Document where
  before : List Misc
  root : Element
  after : List Misc
deriving Repr

/-- The nodes of a document in order. -/
def Document.nodes (d : Document) : List Node :=
  d.before.map Misc.node ++ d.root.node :: d.after.map Misc.node

/-- The element that a node is. -/
def Node.element? : Node → Option Element
  | .element tag attrs children => some ⟨tag, attrs, children⟩
  | _ => none

/-- Whether a node is a text other than a CDATA section. -/
def Node.isText : Node → Bool
  | .text _ => true
  | _ => false

/-- Whether an attribute takes back the default namespace: it was read as `xmlns=""`. Such a
declaration has no value that could be evaluated. -/
def Attr.resetsNamespace (a : Attr) : Bool :=
  a.value?.isNone

/-- What is evaluated in an attribute is what it holds. -/
theorem Attr.value?_eq_some {a : Attr} (h : a.resetsNamespace = false) :
    a.value? = some a.value := by
  unfold Attr.resetsNamespace at h
  unfold Attr.value
  cases hvalue : a.value? with
  | none => rw [hvalue] at h; cases h
  | some text => rfl

/-- The value of an attribute, if it has one. -/
def Element.attr? (e : Element) (name : String) : Option String :=
  (e.attrs.find? fun a => a.name == name && !a.resetsNamespace).map Attr.value

mutual

/-- How deeply elements are nested in a node, the node included. -/
def Node.height : Node → Nat
  | .element _ _ children => heightOfNodes children + 1
  | _ => 0

/-- How deeply elements are nested in a list of nodes. -/
def heightOfNodes : List Node → Nat
  | [] => 0
  | n :: rest => max n.height (heightOfNodes rest)

end

end XmlMacros.Markup
