import XmlMacros.Markup.Node
import XmlMacros.Text.Blank

/-!
# Writing documents

An element with a single text as its child is written on one line; otherwise every child has lines
of its own, indented by its depth, and blank texts are left out. CDATA sections are written without
indentation and line end, so that their data stays as it is. A comment with two hyphens and a CDATA
section that holds its own end cannot be written.
-/

namespace XmlMacros.Markup

/-- Why a tree cannot be written. -/
inductive WriteError
  | hyphensInComment
  | endInCdata
deriving DecidableEq, Repr

/-- The wording of a failure to write. -/
def WriteError.message : WriteError → String
  | .hyphensInComment => "'--' is not allowed in a comment node"
  | .endInCdata => "']]>' not allowed in a CDATA section"

/-- The indentation that each level adds, and what ends a line. -/
structure Layout where
  indent : String
  newline : String

/-- No indentation and no line ends: the tree on one line. -/
def Layout.compact : Layout := ⟨"", ""⟩

/-- One character of a text or an attribute's value. -/
def escapeChar (c : Char) : List Char :=
  match c with
  | '&' => "&amp;".toList
  | '<' => "&lt;".toList
  | '"' => "&quot;".toList
  | '>' => "&gt;".toList
  | c => [c]

/-- A text or an attribute's value with its marks escaped. -/
def escape (s : String) : String :=
  String.ofList (s.toList.flatMap escapeChar)

/-- Whether a pattern stands somewhere in a list. -/
def occursIn (pattern : List Char) : List Char → Bool
  | [] => pattern.isEmpty
  | c :: cs => pattern.isPrefixOf (c :: cs) || occursIn pattern cs

/-- Whether a node is left out between other children: it is a blank text. -/
def Node.isBlank : Node → Bool
  | .text data => Text.isBlankText data
  | _ => false

/-- An attribute as it is written. -/
def Attr.write (a : Attr) : String :=
  " " ++ a.name ++ "=\"" ++ escape a.value ++ "\""

mutual

/-- Writes a node on lines of its own; `level` is the indentation of its first line. -/
def Node.write (layout : Layout) (level : String) : Node → Except WriteError String
  | .text data => .ok (escape (level ++ data ++ layout.newline))
  | .cdata data =>
    if occursIn "]]>".toList data.toList then .error .endInCdata
    else .ok ("<![CDATA[" ++ data ++ "]]>")
  | .comment data =>
    if occursIn "--".toList data.toList then .error .hyphensInComment
    else .ok (level ++ "<!--" ++ data ++ "-->" ++ layout.newline)
  | .instruction target data =>
    .ok (level ++ "<?" ++ target ++ " " ++ data ++ "?>" ++ layout.newline)
  | .element tag attrs children =>
    let start := level ++ "<" ++ tag ++ String.join (attrs.map Attr.write)
    let finish := "</" ++ tag ++ ">" ++ layout.newline
    match children with
    | [] => .ok (start ++ "/>" ++ layout.newline)
    | [.text data] => .ok (start ++ ">" ++ escape data ++ finish)
    | children => do
      let body ← writeChildren layout (level ++ layout.indent) children
      return start ++ ">" ++ layout.newline ++ body ++ level ++ finish

/-- Writes the children of an element, blank texts left out. -/
def writeChildren (layout : Layout) (level : String) : List Node → Except WriteError String
  | [] => .ok ""
  | n :: rest =>
    if n.isBlank then writeChildren layout level rest
    else do
      let first ← Node.write layout level n
      return first ++ (← writeChildren layout level rest)

end

/-- Writes a list of nodes one after the other. -/
def writeNodes (layout : Layout) : List Node → Except WriteError String
  | [] => .ok ""
  | n :: rest => do
    let first ← Node.write layout "" n
    return first ++ (← writeNodes layout rest)

/-- Writes a document after its declaration. -/
def Document.write (layout : Layout) (d : Document) : Except WriteError String := do
  return "<?xml version=\"1.0\" ?>" ++ layout.newline ++ (← writeNodes layout d.nodes)

end XmlMacros.Markup
