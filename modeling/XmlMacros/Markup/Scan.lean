import XmlMacros.Markup.Name

/-!
# Small pieces of markup

What all readers of markup share: line ends, white space, fixed texts, texts in quotes, and the
things that may stand almost everywhere, comments and processing instructions. A reader takes its
piece off the start of a text and gives back the rest, or fails.
-/

namespace XmlMacros.Markup

/-- All line ends as line feeds. -/
def normalizeLines : List Char → List Char
  | [] => []
  | '\r' :: '\n' :: cs => '\n' :: normalizeLines cs
  | '\r' :: cs => '\n' :: normalizeLines cs
  | c :: cs => c :: normalizeLines cs

/-- The text before the first place where a pattern stands, and the text after the pattern. -/
def splitAt? (pattern : List Char) : List Char → Option (List Char × List Char)
  | [] => if pattern.isEmpty then some ([], []) else none
  | c :: cs =>
    if pattern.isPrefixOf (c :: cs) then some ([], (c :: cs).drop pattern.length)
    else (splitAt? pattern cs).map fun (before, rest) => (c :: before, rest)

/-- Takes a fixed text off the start. -/
def expect? (pattern cs : List Char) : Option (List Char) :=
  if pattern.isPrefixOf cs then some (cs.drop pattern.length) else none

/-- The text without the white space at its start. -/
def skipSpace (cs : List Char) : List Char :=
  cs.dropWhile isSpace

/-- The text without the white space at its start, of which there must be some. -/
def skipSomeSpace? (cs : List Char) : Option (List Char) :=
  match cs with
  | c :: _ => if isSpace c then some (skipSpace cs) else none
  | [] => none

/-- Characters as a text, if a document may hold them all. -/
def documentText? (cs : List Char) : Option String :=
  if cs.all isDocumentChar then some (String.ofList cs) else none

/-- Reads a text in quotes of either kind. -/
def scanQuoted? : List Char → Option (List Char × List Char)
  | '"' :: cs => splitAt? ['"'] cs
  | '\'' :: cs => splitAt? ['\''] cs
  | _ => none

/-- Reads a comment, whose opening was read before. Two hyphens may only stand at its end. -/
def scanComment? (cs : List Char) : Option (String × List Char) := do
  let (data, cs) ← splitAt? ['-', '-'] cs
  let rest ← expect? ['>'] cs
  return (← documentText? (normalizeLines data), rest)

/-- Whether a name is kept for the declaration at the start of a document. -/
def isReservedTarget (name : List Char) : Bool :=
  name.map Char.toLower == ['x', 'm', 'l']

/-- Reads a processing instruction, whose `<?` was read before: its target and its data. -/
def scanInstruction? (cs : List Char) : Option ((String × String) × List Char) := do
  let (target, cs) ← scanName? cs
  guard (!isReservedTarget target)
  let target := String.ofList target
  match expect? ['?', '>'] cs with
  | some rest => return ((target, ""), rest)
  | none =>
    let cs ← skipSomeSpace? cs
    let (data, rest) ← splitAt? ['?', '>'] cs
    return ((target, ← documentText? (normalizeLines data)), rest)

end XmlMacros.Markup
