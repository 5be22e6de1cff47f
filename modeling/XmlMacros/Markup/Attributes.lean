import XmlMacros.Fault
import XmlMacros.Markup.Node

/-!
# The attributes of directives

Which attributes a directive must have, which it may have, and which it has beyond those.
-/

namespace XmlMacros.Markup

/-- The value of an attribute that must be there. -/
def Element.requireAttr (e : Element) (name : String) : Except Fault String :=
  match e.attr? name with
  | some value => .ok value
  | none => .error { cause := .missingAttribute e.tag name }

/-- The names of the attributes that are not allowed. Declarations of prefixes always are. -/
def Element.extraAttrs (e : Element) (allowed : List String) : List String :=
  (e.attrs.map Attr.name).filter fun name =>
    !allowed.contains name && !"xmlns:".toList.isPrefixOf name.toList

/-- The warning about attributes that are not allowed, if there are any. -/
def Element.extraWarning? (e : Element) (allowed : List String) : Option String :=
  match e.extraAttrs allowed with
  | [] => none
  | extra => some (e.tag ++ ": unknown attribute(s): " ++ ", ".intercalate extra)

/-- The values of required and optional attributes, in this order. A missing one that is required is
a fault. -/
def Element.readAttrs (e : Element) (required optional : List String) :
    Except Fault (List (Option String)) := do
  let values ← required.mapM e.requireAttr
  return values.map some ++ optional.map e.attr?

end XmlMacros.Markup
