import XmlMacros.Markup.Name
import XmlMacros.Markup.Node

/-!
# Namespaces

Attributes called `xmlns` or `xmlns:p` bind prefixes to namespaces for an element and what it
holds. Every prefix of a tag or an attribute must be bound, and no two attributes of an element
may have the same name in the same namespace. In the tree the declarations come first.
-/

namespace XmlMacros.Markup

/-- The prefixes that are bound, the innermost binding first. -/
abbrev Bindings := List (String × String)

/-- The namespace that the prefix `xml` always has. -/
def xmlNamespace : String := "http://www.w3.org/XML/1998/namespace"

/-- The namespace of the declarations themselves. -/
def xmlnsNamespace : String := "http://www.w3.org/2000/xmlns/"

/-- The bindings outside of every element. -/
def Bindings.initial : Bindings := [("xml", xmlNamespace)]

/-- Whether an attribute declares a namespace. -/
def declares (name : QName) : Bool :=
  name.space == some "xmlns" || (name.space == none && name.label == "xmlns")

/-- Whether a name may be bound to a namespace. The default namespace is that of `none`. -/
def isDeclarable (bound : Option String) (uri : String) : Bool :=
  let free := uri != xmlNamespace && uri != xmlnsNamespace
  !uri.toList.contains ' ' &&
    match bound with
    | none => free
    | some "xmlns" => false
    | some "xml" => uri == xmlNamespace
    | some _ => free && uri != ""

/-- The bindings with those of one declaration. -/
def Bindings.declare? (bindings : Bindings) (name : QName) (uri : String) : Option Bindings :=
  if name.space == some "xmlns" then
    if isDeclarable (some name.label) uri then some ((name.label, uri) :: bindings) else none
  else if isDeclarable none uri then some bindings
  else none

/-- Whether no element occurs twice in a list. -/
def allDistinct [BEq α] : List α → Bool
  | [] => true
  | a :: rest => !rest.contains a && allDistinct rest

/-- An attribute as it is kept in the tree. -/
def attrOf (name : QName) (value : String) : Attr :=
  ⟨name.text, if name.text == "xmlns" && value == "" then none else some value⟩

/-- The attributes of an element, the declarations first, and the bindings inside of it, if names
and bindings are in order. `implied` are the attributes that hold without being given: their
declarations count like the others, and their names must be in order too. -/
def bindAttrs? (bindings : Bindings) (tag : QName) (attrs implied : List (QName × String)) :
    Option (List Attr × Bindings) := do
  let declarations := (attrs ++ implied).filter (declares ·.1)
  let others := (attrs ++ implied).filter (!declares ·.1)
  let bindings ← declarations.foldlM (fun b (name, uri) => b.declare? name uri) bindings
  let isBound (name : QName) : Bool :=
    (name.space.map fun p => (bindings.lookup p).isSome).getD true
  let expanded := others.map fun (name, _) =>
    ((name.space.bind fun p => bindings.lookup p), name.label)
  guard (isBound tag && others.all (isBound ·.1))
  guard (allDistinct (attrs.map Prod.fst) && allDistinct expanded)
  let given := declarations ++ attrs.filter (!declares ·.1)
  return (given.map fun (name, value) => attrOf name value, bindings)

end XmlMacros.Markup
