import XmlMacros.Markup.Doctype
import XmlMacros.Markup.Node

/-!
# The start of a document

In front of the root element a document may have a declaration of itself, comments, processing
instructions and a document type declaration.
-/

namespace XmlMacros.Markup

/-! ## The declaration of a document -/

/-- Whether a character may stand in a setting of the declaration. -/
def isSettingChar (c : Char) : Bool :=
  c.isAlphanum || c == '.' || c == '_' || c == '-'

/-- Reads a setting of the declaration: white space, a name, and a value in quotes. The result is
none where only white space is left. -/
def scanSetting? (cs : List Char) : Option (Option (String × List Char × List Char)) :=
  if cs.all isSpace then some none
  else do
    let cs ← skipSomeSpace? cs
    let ends (c : Char) : Bool := c == '=' || isSpace c
    let name := cs.takeWhile (!ends ·)
    let cs ← expect? ['='] (skipSpace (cs.dropWhile (!ends ·)))
    let (value, rest) ← scanQuoted? (skipSpace cs)
    guard (value.all isSettingChar)
    return some (String.ofList name, value, rest)

/-- Whether the last setting says that the document stands alone. -/
def standalone? (name : String) (value rest : List Char) : Option Bool := do
  guard (name == "standalone" && rest.all isSpace)
  match String.ofList value with
  | "yes" => some true
  | "no" => some false
  | _ => none

/-- Reads the settings of the declaration: a version, perhaps an encoding, perhaps whether the
document stands alone. Gives back whether it does. -/
def readSettings? (cs : List Char) : Option Bool := do
  match ← scanSetting? cs with
  | none => none
  | some (name, _, rest) =>
    guard (name == "version")
    match ← scanSetting? rest with
    | none => return false
    | some (name, value, rest) =>
      if name == "encoding" then
        guard (value.head?.any Char.isAlpha)
        match ← scanSetting? rest with
        | none => return false
        | some (name, value, rest) => standalone? name value rest
      else standalone? name value rest

/-- Passes the declaration at the start of a document, if there is one. Gives back whether the
document says that it stands alone. -/
def readDeclaration? (cs : List Char) : Option (Bool × List Char) :=
  match expect? "<?xml".toList cs with
  | none => some (false, cs)
  | some rest =>
    if rest.head?.any isNameRest then some (false, cs)
    else do
      let (settings, rest) ← splitAt? ['?', '>'] rest
      return (← readSettings? settings, rest)

/-! ## What stands in front of the root -/

/-- The start of a document: the comments and instructions in front of the document type
declaration, and what that says. -/
structure Prologue where
  nodes : List Misc
  doctype : Doctype

/-- Reads comments and instructions up to the document type declaration or the root, and the
declaration. The second argument bounds their number, the third holds those that were read, the last
first. -/
def readPrologue (standalone : Bool) :
    Nat → List Misc → List Char → Except ReadError (Prologue × List Char)
  | 0, _, _ => .error .malformed
  | fuel + 1, nodes, cs =>
    match skipSpace cs with
    | '<' :: '?' :: rest => do
      let ((target, data), rest) ← wellFormed (scanInstruction? rest)
      readPrologue standalone fuel (.instruction target data :: nodes) rest
    | '<' :: '!' :: '-' :: '-' :: rest => do
      let (data, rest) ← wellFormed (scanComment? rest)
      readPrologue standalone fuel (.comment data :: nodes) rest
    | cs =>
      match expect? "<!DOCTYPE".toList cs with
      | some rest => do
        let (d, rest) ← Doctype.read standalone rest
        return (⟨nodes.reverse, d⟩, rest)
      | none => .ok (⟨nodes.reverse, { standalone := standalone }⟩, cs)

end XmlMacros.Markup
