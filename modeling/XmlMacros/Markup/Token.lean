import XmlMacros.Markup.Reference

/-!
# Tokens of markup

A document is cut into tags, character data, references, comments, sections and instructions.
`Token.scan?` reads the first token of a text and fails where no token fits; `tokens?` reads them
all. Line ends are normalized before (`normalizeLines`). Whether tags match and names are bound is
not looked at here.
-/

namespace XmlMacros.Markup

/-- An attribute as it is written. -/
structure RawAttr where
  name : QName
  value : List ValuePiece
deriving DecidableEq, Repr

/-- A token of markup. -/
inductive Token
  | startTag (name : QName) (attrs : List RawAttr) (isEmpty : Bool)
  | endTag (name : QName)
  | chars (text : String)
  /-- A reference to a character. -/
  | character (c : Char)
  /-- A reference to an entity. -/
  | reference (name : String)
  | cdata (data : String)
  | comment (data : String)
  | instruction (target data : String)
deriving DecidableEq, Repr

/-! ## Single tokens -/

/-- Reads an attribute. -/
def RawAttr.scan? (cs : List Char) : Option (RawAttr × List Char) := do
  let (name, cs) ← QName.scan? cs
  let cs ← expect? ['='] (skipSpace cs)
  let (value, cs) ← scanQuoted? (skipSpace cs)
  return (⟨name, ← valuePieces? value.length value⟩, cs)

/-- Reads the attributes and the end of a start tag. The first argument bounds the number of
attributes. -/
def scanAttrs? : Nat → List Char → Option (List RawAttr × Bool × List Char)
  | 0, _ => none
  | fuel + 1, cs =>
    match skipSpace cs with
    | '>' :: rest => some ([], false, rest)
    | '/' :: '>' :: rest => some ([], true, rest)
    | _ => do
      let cs ← skipSomeSpace? cs
      let (a, cs) ← RawAttr.scan? cs
      let (attrs, isEmpty, rest) ← scanAttrs? fuel cs
      return (a :: attrs, isEmpty, rest)

/-- Reads a start tag, whose `<` was read before. -/
def scanStartTag? (cs : List Char) : Option (Token × List Char) := do
  let (name, cs) ← QName.scan? cs
  let (attrs, isEmpty, rest) ← scanAttrs? (cs.length + 1) cs
  return (.startTag name attrs isEmpty, rest)

/-- Reads an end tag, whose `</` was read before. -/
def scanEndTag? (cs : List Char) : Option (Token × List Char) := do
  let (name, cs) ← QName.scan? cs
  let rest ← expect? ['>'] (skipSpace cs)
  return (.endTag name, rest)

/-- Reads a CDATA section, whose opening was read before. -/
def scanCdata? (cs : List Char) : Option (Token × List Char) := do
  let (data, rest) ← splitAt? [']', ']', '>'] cs
  return (.cdata (← documentText? data), rest)

/-- Reads character data up to the next markup or reference. -/
def scanChars? (cs : List Char) : Option (Token × List Char) := do
  let stops (c : Char) : Bool := c == '<' || c == '&'
  let data := cs.takeWhile (!stops ·)
  guard (!data.isEmpty && (splitAt? [']', ']', '>'] data).isNone)
  return (.chars (← documentText? data), cs.dropWhile (!stops ·))

/-! ## Whole texts -/

/-- Reads the first token of a text. -/
def Token.scan? (cs : List Char) : Option (Token × List Char) :=
  match cs with
  | '<' :: '/' :: rest => scanEndTag? rest
  | '<' :: '?' :: rest =>
    (scanInstruction? rest).map fun ((target, data), rest) => (.instruction target data, rest)
  | '<' :: '!' :: rest =>
    match expect? ['-', '-'] rest with
    | some rest => (scanComment? rest).map fun (data, rest) => (.comment data, rest)
    | none => (expect? "[CDATA[".toList rest).bind scanCdata?
  | '<' :: rest => scanStartTag? rest
  | '&' :: rest =>
    (Reference.scan? rest).map fun
      | (.char c, rest) => (.character c, rest)
      | (.entity name, rest) => (.reference name, rest)
  | _ => scanChars? cs

/-- Reads all tokens of a text. The first argument bounds their number. -/
def scanTokens? : Nat → List Char → Option (List Token)
  | _, [] => some []
  | 0, _ :: _ => none
  | fuel + 1, c :: cs => do
    let (t, rest) ← Token.scan? (c :: cs)
    return t :: (← scanTokens? fuel rest)

/-- The tokens of a text, if it is made of tokens. -/
def tokens? (cs : List Char) : Option (List Token) :=
  scanTokens? cs.length cs

end XmlMacros.Markup
