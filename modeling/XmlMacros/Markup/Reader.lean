import XmlMacros.Markup.Namespace
import XmlMacros.Markup.Prologue
import XmlMacros.Markup.Token
import XmlMacros.Markup.Weight

/-!
# Reading documents

Tokens are put together to a tree: start and end tags must match, character data between markup
becomes one text, and references to entities are replaced. Reading either gives the tree or
refuses the document; of a malformed one it does not say what is wrong.
-/

namespace XmlMacros.Markup

/-- An element whose end tag has not been read. Its children are kept in reverse. -/
structure OpenElement where
  name : QName
  attrs : List Attr
  children : List Node
  bindings : Bindings

/-- What has been read of a document. The innermost open element comes first; nodes are kept in
reverse. -/
structure Builder where
  before : List Misc
  stack : List OpenElement
  root : Option Element
  after : List Misc
  doctype : Doctype
  /-- The weights of the entities. -/
  weights : List (String × Nat)
  /-- The length of the document. -/
  written : Nat
  /-- How much the references read so far expand to. -/
  expanded : Nat
  /-- Whether the replacement of an entity is being read: then the outermost open element may not
  be closed. -/
  nested : Bool

/-- A document of which only the start has been read. -/
def Builder.start (p : Prologue) (written : Nat) : Builder :=
  ⟨p.nodes.reverse, [], none, [], p.doctype, p.doctype.weights, written, 0, false⟩

/-- Takes in references. Those inside of replacements count with them. -/
def Builder.expand? (b : Builder) (names : List String) : Option Builder :=
  if b.nested then some b
  else
    let expanded := b.expanded + weightOf b.weights names
    if isExcessive b.written expanded then none else some { b with expanded := expanded }

/-- The children of an element with character data behind them. It joins a text that is there. -/
def addChars (text : String) : List Node → List Node
  | .text data :: rest => .text (data ++ text) :: rest
  | children => if text == "" then children else .text text :: children

/-- Adds character data inside of an element. -/
def Builder.addChars? (b : Builder) (text : String) : Option Builder :=
  match b.stack with
  | [] => none
  | e :: outer => some { b with stack := { e with children := addChars text e.children } :: outer }

/-- Adds a CDATA section inside of an element. An empty one gives no node. -/
def Builder.addCdata? (b : Builder) (data : String) : Option Builder :=
  match b.stack with
  | [] => none
  | e :: outer =>
    some (if data == "" then b
      else { b with stack := { e with children := .cdata data :: e.children } :: outer })

/-- Adds a comment or an instruction. Outside of the root it stands before or after it. -/
def Builder.addMisc (b : Builder) (m : Misc) : Builder :=
  match b.stack with
  | e :: outer => { b with stack := { e with children := m.node :: e.children } :: outer }
  | [] =>
    if b.root.isNone then { b with before := m :: b.before }
    else { b with after := m :: b.after }

/-- The element that an open element becomes when it ends. -/
def OpenElement.close (e : OpenElement) : Element :=
  ⟨e.name.text, e.attrs, e.children.reverse⟩

/-- Ends the innermost element. -/
def Builder.closeElement? (b : Builder) (name : QName) : Option Builder :=
  match b.stack with
  | [] => none
  | [e] =>
    if b.nested || e.name != name then none
    else some { b with stack := [], root := some e.close }
  | e :: parent :: outer =>
    if e.name != name then none
    else
      some { b with
        stack := { parent with children := e.close.node :: parent.children } :: outer }

/-- The bindings that hold where the next tag is read. -/
def Builder.bindings (b : Builder) : Bindings :=
  match b.stack with
  | e :: _ => e.bindings
  | [] => Bindings.initial

/-- The names of the entities that the attributes of a tag refer to. -/
def referencesOf (attrs : List RawAttr) : List String :=
  attrs.flatMap fun a => a.value.filterMap fun
    | .reference name => some name
    | .literal _ => none

/-- The value of an attribute as it was written. -/
def Builder.attrValue? (b : Builder) (tag : QName) (a : RawAttr) : Option (QName × String) := do
  return (a.name, ← b.doctype.value? (b.doctype.isTokenized tag.text a.name) a.value)

/-- The attributes that an element has by declaration without giving them. -/
def Builder.implied (b : Builder) (tag : QName) (attrs : List RawAttr) : List (QName × String) :=
  (b.doctype.rulesOf tag.text).filterMap fun rule =>
    if attrs.any (·.name == rule.name) then none else rule.fallback.map (rule.name, ·)

/-- Starts an element. There is only one outside of all others. -/
def Builder.openElement? (b : Builder) (name : QName) (attrs : List RawAttr) : Option Builder := do
  guard (!(b.stack.isEmpty && b.root.isSome))
  let b ← b.expand? (referencesOf attrs)
  let given ← attrs.mapM (b.attrValue? name)
  let (attrs, bindings) ← bindAttrs? b.bindings name given (b.implied name attrs)
  return { b with stack := ⟨name, attrs, [], bindings⟩ :: b.stack }

/-- Takes in one token. The first argument bounds how deeply entities are nested, the second holds
the entities whose replacement is being read. -/
def Builder.take? : Nat → List String → Builder → Token → Option Builder
  | 0, _, _, _ => none
  | depth + 1, active, b, token =>
    match token with
    | .chars text =>
      if b.stack.isEmpty then if text.toList.all isSpace then some b else none
      else b.addChars? text
    | .character c => b.addChars? (String.ofList [c])
    | .cdata data => b.addCdata? data
    | .comment data => some (b.addMisc (.comment data))
    | .instruction target data => some (b.addMisc (.instruction target data))
    | .startTag name attrs isEmpty => do
      let b ← b.openElement? name attrs
      if isEmpty then b.closeElement? name else some b
    | .endTag name => b.closeElement? name
    | .reference name => do
      let e ← b.stack.head?
      let b ← b.expand? [name]
      match b.doctype.entity? name with
      | some (.internal text) =>
        if name ∈ active then none
        else
          let inner ← tokens? text.toList
          let read ← inner.foldlM (Builder.take? depth (name :: active))
            { b with stack := [e], nested := true }
          match read.stack with
          | [e] => return { b with stack := e :: b.stack.tail }
          | _ => none
      | some .external => return b
      | _ => none

/-- The document that has been read, if it is complete. -/
def Builder.finish? (b : Builder) : Option Document := do
  guard b.stack.isEmpty
  return ⟨b.before.reverse, ← b.root, b.after.reverse⟩

/-- Puts tokens together to a document. -/
def documentOfTokens? (start : Builder) (tokens : List Token) : Option Document := do
  let b ← tokens.foldlM (fun b token => b.take? b.doctype.entityDepth [] token) start
  b.finish?

/-- Reads a document. A byte order mark at its start is passed over. -/
def read (text : String) : Except ReadError Document := do
  let cs := match text.toList with
    | c :: rest => if c.toNat == 0xFEFF then rest else c :: rest
    | [] => []
  let (standalone, cs) ← wellFormed (readDeclaration? (normalizeLines cs))
  let (prologue, cs) ← readPrologue standalone (cs.length + 1) [] cs
  wellFormed (do documentOfTokens? (.start prologue text.utf8ByteSize) (← tokens? cs))

end XmlMacros.Markup
