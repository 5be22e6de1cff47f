import XmlMacros.Yaml.Scalar

/-!
# Tokens of YAML

A text is cut into tokens. In block collections the indentation counts: tokens for the start and the
end of collections are put in where it changes. A key in front of a colon is only known as a key
when the colon is met, so the place of every token that may turn out to be one is remembered
(`SimpleKey`), and the token for the key is put in there afterwards.
-/

namespace XmlMacros.Yaml

open Scan XmlMacros.Text

/-- A token. -/
inductive Token
  | version (major : Nat)
  /-- A handle of tags and what it stands for. -/
  | handle (name start : String)
  | otherDirective
  | documentStart
  | documentEnd
  | streamEnd
  | sequenceStart
  | mappingStart
  | blockEnd
  | flowSequenceStart
  | flowSequenceEnd
  | flowMappingStart
  | flowMappingEnd
  | entry
  | flowEntry
  | key
  | value
  | alias (name : String)
  | anchor (name : String)
  | tag (handle : Option String) (suffix : String)
  | scalar (text : List Glyph) (plain : Bool)
deriving DecidableEq, Repr

/-- A token that may turn out to be a key. -/
structure SimpleKey where
  /-- The number of tokens in front of it. -/
  place : Nat
  /-- Whether it has to be one. -/
  required : Bool
  index : Nat
  line : Nat
  column : Nat

/-- What is known while a text is cut into tokens. -/
structure Scanner where
  cursor : Cursor
  /-- How many flow collections are open. -/
  flow : Nat
  /-- The indentation of the innermost block collection. -/
  indent : Int
  /-- The indentations of those around it. -/
  outer : List Int
  /-- Whether the next token may be a key. -/
  allowKey : Bool
  /-- The tokens that may turn out to be keys, with the number of flow collections around them. -/
  keys : List (Nat × SimpleKey)
  tokens : Array Token

namespace Scanner

/-- The scanner at the start of a text. -/
def start (cs : List Char) : Scanner :=
  { cursor := .start cs, flow := 0, indent := -1, outer := [], allowKey := true, keys := [],
    tokens := #[] }

/-- Adds a token. -/
def push (s : Scanner) (t : Token) : Scanner :=
  { s with tokens := s.tokens.push t }

/-- Puts a token in at a place. -/
def insertAt (s : Scanner) (place : Nat) (t : Token) : Scanner :=
  { s with tokens := (s.tokens.extract 0 place).push t ++ s.tokens.extract place s.tokens.size }

/-- Adds a token that was written with some characters. -/
def pass (s : Scanner) (length : Nat) (t : Token) : Scanner :=
  { s with cursor := s.cursor.advance length }.push t

/-- Runs a step on the cursor. -/
def scan (s : Scanner) (step : Scan α) : Except ReadError (α × Scanner) :=
  (StateT.run step s.cursor).map fun (a, cursor) => (a, { s with cursor := cursor })

/-! ## Keys and indentation -/

/-- Forgets the tokens that can no longer be keys, as a key ends on its line and is not long. A
required one cannot be forgotten. -/
def dropStaleKeys (s : Scanner) : Except ReadError Scanner :=
  let isStale (k : SimpleKey) : Bool := k.line != s.cursor.line || 1024 < s.cursor.index - k.index
  if s.keys.any fun (_, k) => isStale k && k.required then .error .malformed
  else .ok { s with keys := s.keys.filter fun (_, k) => !isStale k }

/-- Forgets the token that might have been a key in the current collection. -/
def dropKey (s : Scanner) : Except ReadError Scanner :=
  if s.keys.any fun (flow, k) => flow == s.flow && k.required then .error .malformed
  else .ok { s with keys := s.keys.filter (·.1 != s.flow) }

/-- Remembers that the next token may be a key. -/
def saveKey (s : Scanner) : Except ReadError Scanner := do
  if !s.allowKey then return s
  let c := s.cursor
  let key : SimpleKey :=
    { place := s.tokens.size, required := s.flow == 0 && s.indent == c.column, index := c.index,
      line := c.line, column := c.column }
  let s ← s.dropKey
  return { s with keys := (s.flow, key) :: s.keys }

/-- Leaves block collections that are indented by more than a column. -/
def unwind (column : Int) : Nat → Scanner → Scanner
  | 0, s => s
  | fuel + 1, s =>
    if s.flow == 0 && s.indent > column then
      let s := { s with indent := s.outer.headD (-1), outer := s.outer.tail }
      unwind column fuel (s.push .blockEnd)
    else s

/-- Leaves block collections that are indented by more than a column. -/
def unwindTo (s : Scanner) (column : Int) : Scanner :=
  s.unwind column (s.outer.length + 1)

/-- Starts a block collection at a column, if that is indented by more than the current one. The
token for its start is put in at a place. -/
def indentTo (s : Scanner) (column place : Nat) (t : Token) : Scanner :=
  if s.indent < column then
    { s with indent := column, outer := s.indent :: s.outer }.insertAt place t
  else s

/-! ## Single tokens -/

/-- Passes white space, comments and line ends. -/
def skipBlank : Nat → Scanner → Except ReadError Scanner
  | 0, s => .ok s
  | fuel + 1, s => do
    let step : Scan (Option Char) := do
      skipSpaces
      if (← peek) == some '#' then
        let _ ← run (fun c => !isBreak c)
      lineBreak?
    let (crossed, s) ← s.scan step
    match crossed with
    | none => return s
    | some _ => skipBlank fuel (if s.flow == 0 then { s with allowKey := true } else s)

/-- Reads a decimal number. -/
def number : Scan Nat := do
  let digits ← run Char.isDigit
  if digits.isEmpty then throw .malformed
  return digits.foldl (fun n c => n * 10 + (c.toNat - '0'.toNat)) 0

/-- Whether a character may stand in a tag. -/
def isTagChar (c : Char) : Bool :=
  c.isAlphanum || "-;/?:@&=+$,_.!~*'()[]".toList.contains c

/-- The bytes of hexadecimal escapes. -/
def tagBytes : Nat → List UInt8 → Scan (List UInt8)
  | 0, bytes => return bytes
  | fuel + 1, bytes => do
    if (← peek) != some '%' then return bytes
    forward 1
    let digits := (← get).rest.take 2
    if digits.length < 2 then throw .malformed
    match Scalar.hexNumber? digits with
    | none => throw .malformed
    | some n =>
      forward 2
      tagBytes fuel (bytes ++ [n.toUInt8])

/-- Reads the characters of a tag, with escapes. -/
def tagText : Nat → List Char → Scan (List Char)
  | 0, text => return text
  | fuel + 1, text => do
    let text := text ++ (← run isTagChar)
    if (← peek) != some '%' then return text
    let bytes ← tagBytes (← bound) []
    match String.fromUTF8? ⟨bytes.toArray⟩ with
    | none => throw .malformed
    | some s => tagText fuel (text ++ s.toList)

/-- Reads a tag or the start of tags. It is not empty. -/
def tagUri : Scan String := do
  let text ← tagText (← bound) []
  if text.isEmpty then throw .malformed
  return String.ofList text

/-- Reads the handle of a tag: one exclamation mark, or a name between two. -/
def tagHandle : Scan String := do
  if (← peek) != some '!' then throw .malformed
  forward 1
  if (← peek) == some ' ' then return "!"
  let name ← run isNameChar
  if (← peek) != some '!' then throw .malformed
  forward 1
  return String.ofList ('!' :: name ++ ['!'])

/-- Reads a tag. -/
def tag : Scan Token := do
  let following ← peekAt 1
  let token ← if following == some '<' then do
      forward 2
      let suffix ← tagUri
      if (← peek) != some '>' then throw .malformed
      forward 1
      pure (Token.tag none suffix)
    else if isGap following then do
      forward 1
      pure (Token.tag none "!")
    else do
      let word := ((← get).rest.drop 1).takeWhile fun c => !endsWord (some c)
      let handle ← if word.contains '!' then tagHandle
        else do
          forward 1
          pure "!"
      pure (Token.tag (some handle) (← tagUri))
  if endsWord (← peek) then return token else throw .malformed

/-- Reads the name of an anchor after its indicator. -/
def anchorName : Scan String := do
  forward 1
  let name ← run isNameChar
  if name.isEmpty then throw .malformed
  let following ← peek
  let mayFollow (c : Char) : Bool := ['?', ':', ',', ']', '}', '%', '@', '\x60'].contains c
  if isGap following || following.any mayFollow then return String.ofList name else throw .malformed

/-- Reads a directive. -/
def directive : Scan Token := do
  forward 1
  let name ← run isNameChar
  if name.isEmpty || !endsWord (← peek) then throw .malformed
  let token ← match String.ofList name with
    | "YAML" => do
      skipSpaces
      let major ← number
      if (← peek) != some '.' then throw .malformed
      forward 1
      let _ ← number
      if !endsWord (← peek) then throw .malformed
      pure (Token.version major)
    | "TAG" => do
      skipSpaces
      let handle ← tagHandle
      if (← peek) != some ' ' then throw .malformed
      skipSpaces
      let start ← tagUri
      if !endsWord (← peek) then throw .malformed
      pure (Token.handle handle start)
    | _ => do
      let _ ← run (fun c => !isBreak c)
      pure Token.otherDirective
  endOfLine
  return token

/-! ## The next token -/

/-- A token at the left margin that ends all block collections. -/
def atMargin (s : Scanner) : Except ReadError Scanner := do
  let s ← (s.unwindTo (-1)).dropKey
  return { s with allowKey := false }

/-- A token that may be a key. -/
def keyed (s : Scanner) (step : Scan Token) : Except ReadError Scanner := do
  let s ← s.saveKey
  let (t, s) ← { s with allowKey := false }.scan step
  return s.push t

/-- The start of a flow collection. -/
def openFlow (s : Scanner) (t : Token) : Except ReadError Scanner := do
  let s ← s.saveKey
  return { s with flow := s.flow + 1, allowKey := true }.pass 1 t

/-- The end of a flow collection. -/
def closeFlow (s : Scanner) (t : Token) : Except ReadError Scanner := do
  if s.flow == 0 then throw .malformed
  let s ← s.dropKey
  return { s with flow := s.flow - 1, allowKey := false }.pass 1 t

/-- An indicator that may start a block collection. -/
def indicator (s : Scanner) (start t : Token) (allowKey : Bool) : Except ReadError Scanner := do
  if s.flow == 0 && !s.allowKey then throw .malformed
  let s := if s.flow == 0 then s.indentTo s.cursor.column s.tokens.size start else s
  let s ← { s with allowKey := allowKey }.dropKey
  return s.pass 1 t

/-- The colon after a key. -/
def colon (s : Scanner) : Except ReadError Scanner :=
  match s.keys.lookup s.flow with
  | none => s.indicator .mappingStart .value (s.flow == 0)
  | some k =>
    let s := { s with keys := s.keys.filter (·.1 != s.flow) }.insertAt k.place .key
    let s := if s.flow == 0 then s.indentTo k.column k.place .mappingStart else s
    .ok ({ s with allowKey := false }.pass 1 .value)

/-- A block scalar. -/
def blockScalar (s : Scanner) (folded : Bool) : Except ReadError Scanner := do
  let s ← { s with allowKey := true }.dropKey
  let (text, s) ← s.scan (Scalar.block folded s.indent)
  return s.push (.scalar text false)

/-- A plain scalar. A key may follow it on the next line. -/
def plainScalar (s : Scanner) : Except ReadError Scanner := do
  let s ← s.saveKey
  let ((text, crossed), s) ← s.scan (Scalar.plain (s.flow != 0) (s.indent + 1))
  return { s with allowKey := crossed }.push (.scalar text true)

/-- Whether a plain scalar may start with a character. -/
def startsPlain (s : Scanner) (c : Char) (following : Option Char) : Bool :=
  !(isGap (some c) || "-?:,[]\x7b\x7d#&*!|>'\"%@\x60".toList.contains c)
    || (!isGap following && (c == '-' || (s.flow == 0 && (c == '?' || c == ':'))))

/-- Reads the token that starts with a character. -/
def token (s : Scanner) (c : Char) : Except ReadError Scanner :=
  let following := s.cursor.rest[1]?
  let complete := s.flow != 0 || isGap following
  if c == '%' && s.cursor.column == 0 then do
    let (t, s) ← (← s.atMargin).scan directive
    return s.push t
  else if s.cursor.column == 0 && s.cursor.atSeparator then do
    return (← s.atMargin).pass 3 (if c == '-' then .documentStart else .documentEnd)
  else
    match c with
    | '[' => s.openFlow .flowSequenceStart
    | '{' => s.openFlow .flowMappingStart
    | ']' => s.closeFlow .flowSequenceEnd
    | '}' => s.closeFlow .flowMappingEnd
    | ',' => do return (← { s with allowKey := true }.dropKey).pass 1 .flowEntry
    | '*' => s.keyed (Token.alias <$> anchorName)
    | '&' => s.keyed (Token.anchor <$> anchorName)
    | '!' => s.keyed tag
    | '\'' => s.keyed ((Token.scalar · false) <$> Scalar.quoted false)
    | '"' => s.keyed ((Token.scalar · false) <$> Scalar.quoted true)
    | _ =>
      if c == '-' && isGap following then s.indicator .sequenceStart .entry true
      else if c == '?' && complete then s.indicator .mappingStart .key (s.flow == 0)
      else if c == ':' && complete then s.colon
      else if (c == '|' || c == '>') && s.flow == 0 then s.blockScalar (c == '>')
      else if s.startsPlain c following then s.plainScalar
      else .error .malformed

/-- The tokens in front of the first one that may still turn out to be a key. -/
def settled (s : Scanner) : List Token :=
  s.tokens.toList.take (s.keys.foldl (fun least (_, k) => min least k.place) s.tokens.size)

/-- Passes what stands between two tokens. -/
def between (s : Scanner) : Except ReadError Scanner := do
  let s ← s.skipBlank (s.cursor.rest.length + 1)
  let s ← s.dropStaleKeys
  return s.unwindTo s.cursor.column

end Scanner

/-- The tokens of a text. A text that stops being made of tokens has those in front of that place,
as far as they are settled, and a fault after them. -/
structure Tokens where
  list : List Token
  fault : ReadError

namespace Scanner

/-- Cuts the rest of a text into tokens. Every turn but the last passes a character. -/
def finish : Nat → Scanner → Tokens
  | 0, s => ⟨s.settled, .malformed⟩
  | fuel + 1, s =>
    match s.between with
    | .error e => ⟨s.settled, e⟩
    | .ok s =>
      match s.cursor.rest with
      | [] =>
        match s.atMargin with
        | .error e => ⟨s.settled, e⟩
        | .ok s => ⟨(s.push .streamEnd).tokens.toList, .malformed⟩
      | c :: _ =>
        match s.token c with
        | .error e => ⟨s.settled, e⟩
        | .ok s => finish fuel s

end Scanner

/-- Cuts a text into tokens. -/
def Tokens.read (cs : List Char) : Tokens :=
  if !cs.all isAllowed then ⟨[], .malformed⟩
  else
    let s := Scanner.start cs
    s.finish (s.cursor.rest.length + 1)

end XmlMacros.Yaml
