import XmlMacros.Markup.Node

/-!
# Directives

What an element means to the expander. Tags that start with `xacro:` are always directives or calls
of macros. Unless the prefix is required, some bare tags are directives too, and so are the names of
registered macros. All other elements are ordinary.
-/

namespace XmlMacros

open XmlMacros.Markup

/-- What an element means. -/
inductive Directive
  | property
  | defineMacro
  | insertBlock
  | whenTrue
  | whenFalse
  | includeFile
  | arg
  | call
  | newElement
  | newAttribute
  /-- The call of a macro by its name. -/
  | invoke
  /-- An element that stands for itself. -/
  | ordinary
deriving DecidableEq, Repr

/-- The start of the tags of directives. -/
def tagPrefix : String := "xacro:"

/-- The tag without the start of directives' tags, if it has it. -/
def stripTag? (tag : String) : Option String :=
  if tagPrefix.toList.isPrefixOf tag.toList then
    some (String.ofList (tag.toList.drop tagPrefix.toList.length))
  else none

/-- A name without the start of directives' tags. -/
def stripTag (name : String) : String :=
  (stripTag? name).getD name

/-- The directive that a word after the start of a tag stands for. -/
def Directive.ofWord? : String → Option Directive
  | "property" => some .property
  | "macro" => some .defineMacro
  | "insert_block" => some .insertBlock
  | "if" => some .whenTrue
  | "unless" => some .whenFalse
  | "include" => some .includeFile
  | "arg" => some .arg
  | "call" => some .call
  | "element" => some .newElement
  | "attribute" => some .newAttribute
  | _ => none

/-- The directive that a bare tag stands for where the prefix is not required. -/
def Directive.ofBareTag? (tag : String) : Option Directive :=
  match Directive.ofWord? tag with
  | some .arg | some .call => none
  | directive => directive

/-- Whether a bare element for including is an ordinary one: it has children other than a single
text. -/
def Markup.Element.isPlainInclude (e : Element) : Bool :=
  match e.children with
  | [] => false
  | [n] => !n.isText
  | _ => true

/-- What an element means, where `isMacro` tells the names of registered macros. -/
def Directive.classify (requirePrefix : Bool) (isMacro : String → Bool) (e : Element) : Directive :=
  match stripTag? e.tag with
  | some word => (Directive.ofWord? word).getD .invoke
  | none =>
    if requirePrefix then .ordinary
    else
      match Directive.ofBareTag? e.tag with
      | some .includeFile => if e.isPlainInclude then .ordinary else .includeFile
      | some directive => directive
      | none => if isMacro e.tag then .invoke else .ordinary

/-- Whether an element defines a property or a macro. -/
def Directive.isDefinition : Directive → Bool
  | .property | .defineMacro => true
  | _ => false

end XmlMacros
