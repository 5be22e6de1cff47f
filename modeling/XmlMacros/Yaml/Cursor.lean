import XmlMacros.Yaml.Error

/-!
# Places in a YAML text

A cursor is what is left of a text, with the line and column it starts at. `Scan` moves a cursor
forward and may fail.
-/

namespace XmlMacros.Yaml

/-- Whether a character ends a line. -/
def isBreak (c : Char) : Bool :=
  c == '\n' || c == '\r' || c.toNat == 0x85 || c.toNat == 0x2028 || c.toNat == 0x2029

/-- Whether a text ends a line here: there is nothing left, or a line end. -/
def endsLine : Option Char → Bool
  | none => true
  | some c => isBreak c

/-- Whether a word ends here: the line ends, or a space follows. -/
def endsWord (c : Option Char) : Bool :=
  c == some ' ' || endsLine c

/-- Whether an indicator is complete here: the line ends, or a space or tab follows. -/
def isGap (c : Option Char) : Bool :=
  c == some '\t' || endsWord c

/-- Whether a character may stand in a text at all. -/
def isAllowed (c : Char) : Bool :=
  let n := c.toNat
  n == 0x9 || n == 0xA || n == 0xD || n == 0x85 || (0x20 ≤ n && n ≤ 0x7E)
    || (0xA0 ≤ n && n ≤ 0xD7FF) || (0xE000 ≤ n && n ≤ 0xFFFD) || 0x10000 ≤ n

/-- Whether a character may stand in the name of an anchor. -/
def isNameChar (c : Char) : Bool :=
  c.isAlphanum || c == '-' || c == '_'

/-- A place in a text: what is left of it, and where that starts. -/
structure Cursor where
  rest : List Char
  index : Nat
  line : Nat
  column : Nat
deriving Repr

namespace Cursor

/-- The start of a text. A byte order mark at the start is passed over. -/
def start (cs : List Char) : Cursor :=
  match cs with
  | c :: rest => if c.toNat == 0xFEFF then ⟨rest, 1, 0, 0⟩ else ⟨cs, 0, 0, 0⟩
  | [] => ⟨[], 0, 0, 0⟩

/-- The place after the next character. A carriage return in front of a line feed does not end the
line yet, and a byte order mark has no width. -/
def next (c : Cursor) : Cursor :=
  match c.rest with
  | [] => c
  | ch :: rest =>
    if isBreak ch && !(ch == '\r' && rest.head? == some '\n') then
      ⟨rest, c.index + 1, c.line + 1, 0⟩
    else if ch.toNat == 0xFEFF then { c with rest := rest, index := c.index + 1 }
    else ⟨rest, c.index + 1, c.line, c.column + 1⟩

/-- The place after some characters. -/
def advance : Nat → Cursor → Cursor
  | 0, c => c
  | n + 1, c => advance n c.next

/-- Whether documents are separated here: three hyphens or points are followed by a gap. -/
def atSeparator (c : Cursor) : Bool :=
  let mark := c.rest.take 3
  (mark == ['-', '-', '-'] || mark == ['.', '.', '.']) && isGap c.rest[3]?

end Cursor

/-- A step that moves a cursor forward and may fail. -/
abbrev Scan := StateT Cursor (Except ReadError)

namespace Scan

/-- The next character. -/
def peek : Scan (Option Char) := do
  return (← get).rest.head?

/-- The character some places ahead. -/
def peekAt (k : Nat) : Scan (Option Char) := do
  return (← get).rest[k]?

/-- Goes forward. -/
def forward (n : Nat) : Scan Unit :=
  modify (Cursor.advance n)

/-- Goes forward as long as `p` holds, and gives back what was passed. -/
def run (p : Char → Bool) : Scan (List Char) := do
  let cs := (← get).rest.takeWhile p
  forward cs.length
  return cs

/-- Passes spaces. -/
def skipSpaces : Scan Unit := do
  let _ ← run (· == ' ')

/-- A bound for loops that go forward at each turn. -/
def bound : Scan Nat := do
  return (← get).rest.length + 1

/-- Passes a line end, if there is one, and gives back the character it stands for. -/
def lineBreak? : Scan (Option Char) := do
  match (← get).rest with
  | [] => return none
  | c :: rest =>
    if !isBreak c then return none
    else
      forward (if c == '\r' && rest.head? == some '\n' then 2 else 1)
      return some (if c.toNat == 0x2028 || c.toNat == 0x2029 then c else '\n')

/-- Passes a comment that may stand at the end of a line, and the line end after it. Nothing else
may stand there. -/
def endOfLine : Scan Unit := do
  skipSpaces
  if (← peek) == some '#' then
    let _ ← run (fun c => !isBreak c)
  if endsLine (← peek) then
    let _ ← lineBreak?
  else throw .malformed

end Scan

end XmlMacros.Yaml
