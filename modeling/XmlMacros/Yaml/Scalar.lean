import XmlMacros.Text.Digit
import XmlMacros.Text.Glyph
import XmlMacros.Yaml.Cursor

/-!
# Scalars

The five ways of writing a text: plain, in single or double quotes, and as a literal or folded
block. In all of them but the literal block a single line end between two lines stands for a space.
-/

namespace XmlMacros.Yaml.Scalar

open Scan XmlMacros.Text

/-! ## Plain scalars -/

/-- Whether a character divides or encloses the items of a flow collection. -/
def isFlowMark (c : Char) : Bool :=
  [',', '[', ']', '{', '}'].contains c

/-- Whether a plain scalar ends before the characters. In a flow collection brackets, commas and
question marks end it too. -/
def endsPlain (inFlow : Bool) : List Char → Bool
  | [] => true
  | c :: rest =>
    isGap (some c)
      || (c == ':' && (isGap rest.head? || (inFlow && rest.head?.any isFlowMark)))
      || (inFlow && (c == '?' || isFlowMark c))

/-- The part of a plain scalar up to a gap or its end. -/
def plainRun (inFlow : Bool) : List Char → List Char
  | [] => []
  | c :: rest => if endsPlain inFlow (c :: rest) then [] else c :: plainRun inFlow rest

/-- Passes spaces and empty lines. The result is the line ends passed, or nothing if documents are
separated there. The first argument bounds the number of turns. -/
def emptyLines : Nat → List Char → Scan (Option (List Char))
  | 0, breaks => return some breaks
  | fuel + 1, breaks => do
    if (← peek) == some ' ' then
      forward 1
      emptyLines fuel breaks
    else
      match ← lineBreak? with
      | none => return some breaks
      | some c =>
        if (← get).atSeparator then return none
        else emptyLines fuel (breaks ++ [c])

/-- What line ends stand for: a single line feed is a space, and of several the first is dropped. -/
def foldBreaks (first : Char) (more : List Char) : List Char :=
  if first != '\n' then first :: more
  else if more.isEmpty then [' ']
  else more

/-- Passes the gap after a part of a plain scalar. The result is what it stands for and whether a
line ended in it; it stands for nothing where the scalar ends. -/
def plainGap : Scan (List Char × Bool) := do
  let spaces ← run (· == ' ')
  match ← lineBreak? with
  | none => return (spaces, false)
  | some first =>
    if (← get).atSeparator then return ([], true)
    match ← emptyLines (← bound) [] with
    | none => return ([], true)
    | some more => return (foldBreaks first more, true)

/-- Reads a plain scalar on. `gap` is the gap in front of the next part. -/
def plainParts (inFlow : Bool) (indent : Int) :
    Nat → List Char → List Char → Bool → Scan (List Char × Bool)
  | 0, _, text, crossed => return (text, crossed)
  | fuel + 1, gap, text, crossed => do
    if (← peek) == some '#' then return (text, crossed)
    let part := plainRun inFlow (← get).rest
    if part.isEmpty then return (text, crossed)
    forward part.length
    let text := text ++ gap ++ part
    let (gap, crossed) ← plainGap
    let ends := (← peek) == some '#' || (!inFlow && ((← get).column : Int) < indent)
    if gap.isEmpty || ends then return (text, crossed)
    plainParts inFlow indent fuel gap text crossed

/-- Reads a plain scalar whose further lines are indented by at least `indent`. The result is its
text and whether a line ended after it. -/
def plain (inFlow : Bool) (indent : Int) : Scan (List Glyph × Bool) := do
  let (text, crossed) ← plainParts inFlow indent (← bound) [] [] false
  return (Glyph.ofChars text, crossed)

/-! ## Quoted scalars -/

/-- The character that an escape of one character stands for. -/
def escaped? : Char → Option Char
  | '0' => some (Char.ofNat 0)
  | 'a' => some (Char.ofNat 0x7)
  | 'b' => some (Char.ofNat 0x8)
  | 't' | '\t' => some '\t'
  | 'n' => some '\n'
  | 'v' => some (Char.ofNat 0xB)
  | 'f' => some (Char.ofNat 0xC)
  | 'r' => some '\r'
  | 'e' => some (Char.ofNat 0x1B)
  | ' ' => some ' '
  | '"' => some '"'
  | '\\' => some '\\'
  | '/' => some '/'
  | 'N' => some (Char.ofNat 0x85)
  | '_' => some (Char.ofNat 0xA0)
  | 'L' => some (Char.ofNat 0x2028)
  | 'P' => some (Char.ofNat 0x2029)
  | _ => none

/-- The number of hexadecimal digits after an escape. -/
def codeLength? : Char → Option Nat
  | 'x' => some 2
  | 'u' => some 4
  | 'U' => some 8
  | _ => none

/-- The number of hexadecimal digits, most significant first. -/
def hexNumber? (cs : List Char) : Option Nat :=
  cs.foldlM (fun n c => (hexValue? c).map (n * 16 + ·)) 0

/-- Passes the line ends and the white space at the start of lines inside of quotes. Documents must
not be separated there. -/
def quotedBreaks : Nat → List Char → Scan (List Char)
  | 0, breaks => return breaks
  | fuel + 1, breaks => do
    if (← get).atSeparator then throw .malformed
    let _ ← run (fun c => c == ' ' || c == '\t')
    match ← lineBreak? with
    | none => return breaks
    | some c => quotedBreaks fuel (breaks ++ [c])

/-- The glyph that the number of an escape names. -/
def glyphOfCode (code : Nat) : Except ReadError Glyph :=
  match Glyph.ofCode? code with
  | some glyph => .ok glyph
  | none =>
    if code < 0x80000000 then .error (.unfit "chr() arg not in range(0x110000)")
    else .error (.tooLarge "Python int too large to convert to C int")

/-- Reads an escape after its backslash. -/
def escape : Scan (List Glyph) := do
  match ← peek with
  | none => throw .malformed
  | some c =>
    match escaped? c, codeLength? c with
    | some value, _ =>
      forward 1
      return [.char value]
    | none, some length =>
      forward 1
      let digits := (← get).rest.take length
      if digits.length < length then throw .malformed
      match hexNumber? digits with
      | none => throw .malformed
      | some code =>
        forward length
        return [← glyphOfCode code]
    | none, none =>
      match ← lineBreak? with
      | none => throw .malformed
      | some _ => return Glyph.ofChars (← quotedBreaks (← bound) [])

/-- Whether a character ends a run of ordinary characters inside of quotes. -/
def endsQuotedRun (c : Char) : Bool :=
  c == '\'' || c == '"' || c == '\\' || isGap (some c)

/-- Reads characters inside of quotes up to white space or the quote at the end. -/
def quotedWord (double : Bool) : Nat → List Glyph → Scan (List Glyph)
  | 0, text => return text
  | fuel + 1, text => do
    let text := text ++ Glyph.ofChars (← run (fun c => !endsQuotedRun c))
    match ← peek with
    | some '\'' =>
      if double then
        forward 1
        quotedWord double fuel (text ++ [.char '\''])
      else if (← peekAt 1) == some '\'' then
        forward 2
        quotedWord double fuel (text ++ [.char '\''])
      else return text
    | some '"' =>
      if double then return text
      else
        forward 1
        quotedWord double fuel (text ++ [.char '"'])
    | some '\\' =>
      forward 1
      if double then quotedWord double fuel (text ++ (← escape))
      else quotedWord double fuel (text ++ [.char '\\'])
    | _ => return text

/-- Passes white space inside of quotes. -/
def quotedGap : Scan (List Char) := do
  let spaces ← run (fun c => c == ' ' || c == '\t')
  if (← peek).isNone then throw .malformed
  match ← lineBreak? with
  | none => return spaces
  | some first => return foldBreaks first (← quotedBreaks (← bound) [])

/-- Reads words and gaps up to the quote at the end. -/
def quotedParts (double : Bool) : Nat → List Glyph → Scan (List Glyph)
  | 0, _ => throw .malformed
  | fuel + 1, text => do
    let text := text ++ (← quotedWord double (← bound) [])
    if (← peek) == some (if double then '"' else '\'') then
      forward 1
      return text
    else
      let gap ← quotedGap
      quotedParts double fuel (text ++ Glyph.ofChars gap)

/-- Reads a scalar in quotes. -/
def quoted (double : Bool) : Scan (List Glyph) := do
  forward 1
  quotedParts double (← bound) []

/-! ## Block scalars -/

/-- What happens to the line ends at the end of a block. -/
inductive Chomping
  | clip
  | strip
  | keep
deriving DecidableEq

/-- Reads a mark for chomping. -/
def chomping? : Scan (Option Chomping) := do
  match ← peek with
  | some '+' =>
    forward 1
    return some .keep
  | some '-' =>
    forward 1
    return some .strip
  | _ => return none

/-- Reads the indentation of a block where it is given. It must not be zero. -/
def increment? : Scan (Option Nat) := do
  match ← peek with
  | some c =>
    if c == '0' then throw .malformed
    else if c.isDigit then
      forward 1
      return some (c.toNat - '0'.toNat)
    else return none
  | none => return none

/-- Reads the marks after the indicator of a block, in either order. -/
def blockMarks : Scan (Chomping × Option Nat) := do
  let marks ← match ← chomping? with
    | some chomping => pure (chomping, ← increment?)
    | none =>
      let increment ← increment?
      let chomping ← if increment.isSome then chomping? else pure none
      pure (chomping.getD .clip, increment)
  if endsWord (← peek) then return marks else throw .malformed

/-- Passes empty lines and spaces in front of a block, and finds its indentation. -/
def blockStart : Nat → List Char → Nat → Scan (List Char × Nat)
  | 0, breaks, indent => return (breaks, indent)
  | fuel + 1, breaks, indent => do
    if (← peek) == some ' ' then
      forward 1
      blockStart fuel breaks (max indent (← get).column)
    else
      match ← lineBreak? with
      | none => return (breaks, indent)
      | some c => blockStart fuel (breaks ++ [c]) indent

/-- Passes spaces up to a column. -/
def skipIndent (indent : Nat) : Scan Unit := do
  let c ← get
  forward ((c.rest.take (indent - c.column)).takeWhile (· == ' ')).length

/-- Passes empty lines inside of a block, up to its indentation. -/
def blockBreaks (indent : Nat) : Nat → List Char → Scan (List Char)
  | 0, breaks => return breaks
  | fuel + 1, breaks => do
    skipIndent indent
    match ← lineBreak? with
    | none => return breaks
    | some c => blockBreaks indent fuel (breaks ++ [c])

/-- Whether a line of the block starts here. -/
def atBlockLine (indent : Nat) : Scan Bool := do
  let c ← get
  return c.column == indent && !c.rest.isEmpty

/-- Reads the lines of a block. `breaks` are the line ends in front of the next line. The result is
the text, the line end after it, and the line ends that follow. -/
def blockLines (folded : Bool) (indent : Nat) :
    Nat → List Char → List Char → Scan (List Char × List Char × List Char)
  | 0, breaks, text => return (text, [], breaks)
  | fuel + 1, breaks, text => do
    let isIndented (c : Option Char) : Bool := c == some ' ' || c == some '\t'
    let solid := !isIndented (← peek)
    let text := text ++ breaks ++ (← run (fun c => !isBreak c))
    let ending := (← lineBreak?).toList
    let breaks ← blockBreaks indent (← bound) []
    if ← atBlockLine indent then
      let joined := folded && ending == ['\n'] && solid && !isIndented (← peek)
      let between := if !joined then ending else if breaks.isEmpty then [' '] else []
      blockLines folded indent fuel breaks (text ++ between)
    else return (text, ending, breaks)

/-- Reads a block scalar inside of a collection that is indented by `indent`. -/
def block (folded : Bool) (indent : Int) : Scan (List Glyph) := do
  forward 1
  let (chomping, increment) ← blockMarks
  endOfLine
  let least := (max (indent + 1) 1).toNat
  let (breaks, indent) ← match increment with
    | none =>
      let (breaks, found) ← blockStart (← bound) [] 0
      pure (breaks, max least found)
    | some n =>
      let indent := least + n - 1
      pure (← blockBreaks indent (← bound) [], indent)
  let (text, ending, breaks) ← if ← atBlockLine indent then
      blockLines folded indent (← bound) breaks []
    else pure ([], [], breaks)
  let tail := match chomping with
    | .strip => []
    | .clip => ending
    | .keep => ending ++ breaks
  return Glyph.ofChars (text ++ tail)

end XmlMacros.Yaml.Scalar
