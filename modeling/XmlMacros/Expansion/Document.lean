import XmlMacros.Expansion.Gather

/-!
# Expanding documents

A document is expanded in a global scope and a registry of its own. Its root is always an ordinary
element; in the output it no longer declares the prefix of directives.
-/

namespace XmlMacros.Expansion

open XmlMacros.Markup

/-- Evaluates the data of a comment. Instructions are kept as they are. -/
def evalMisc (env : Environment) : Misc → M Misc
  | .comment data => .comment <$> evalText env data
  | .instruction target data => pure (.instruction target data)

/-- Evaluates what stands around a root. -/
def expandMisc (env : Environment) : List Misc → M (List Misc)
  | [] => pure []
  | m :: rest => do
    let first ← evalMisc env m
    return first :: (← expandMisc env rest)

/-- The element without the declaration of the prefix of directives. -/
def dropPrefixDeclaration (e : Element) : Element :=
  { e with attrs := e.attrs.filter (·.name != "xmlns:xacro") }

/-- Runs `x` with a global scope and a registry of its own. -/
def isolated (x : M α) : M α :=
  bracket (fun s => { s with scopes := Scopes.initial, macros := Dict.empty })
    (fun before after => { after with scopes := before.scopes, macros := before.macros }) x

/-- The root that is expanded: as it is, or without the definitions, which are gathered. -/
def preparedRoot (env : Environment) (depth : Nat) (inOrder : Bool) (root : Element) : M Element :=
  if inOrder then pure root else gather env depth root

/-- Expands the parts of a document in order. -/
def expandParts (env : Environment) (depth : Nat) (d : Document) : M Document := do
  let before ← expandMisc env d.before
  let root ← expandElement env (expandNode env depth) d.root
  let after ← expandMisc env d.after
  return ⟨before, dropPrefixDeclaration root, after⟩

/-- Expands a document, in reading order or with definitions gathered first. -/
def expandDocument (env : Environment) (depth : Nat) (inOrder : Bool) (d : Document) :
    M Document :=
  isolated do
    let root ← preparedRoot env depth inOrder d.root
    expandParts env depth { d with root := root }

end XmlMacros.Expansion
