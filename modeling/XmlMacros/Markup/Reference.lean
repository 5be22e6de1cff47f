import XmlMacros.Markup.Scan
import XmlMacros.Text.Digit
import XmlMacros.Text.Path

/-!
# References and values

A reference stands for a character or for an entity. The value of an attribute is made of text and
references to entities, whose replacements may hold references in turn (`expandValue?`). An
attribute that was declared as a list of words has the words divided by single blanks
(`tokenized`).
-/

namespace XmlMacros.Markup

/-! ## References -/

/-- The character with a number, if a document may hold it. -/
def charOfNumber? (n : Nat) : Option Char :=
  if n.isValidChar then
    let c := Char.ofNat n
    if isDocumentChar c then some c else none
  else none

/-- The number that digits denote in a base. -/
def numberOfDigits? (base : Nat) (digits : List Char) : Option Nat :=
  if digits.isEmpty then none
  else
    digits.foldlM (fun n c => do
      let d ← Text.hexValue? c
      if d < base then some (min (base * n + d) 0x110000) else none) 0

/-- What a reference stands for: a character, or an entity. -/
inductive Reference
  | char (c : Char)
  | entity (name : String)

/-- The characters that have names in every document. -/
def namedChar? : String → Option Char
  | "amp" => some '&'
  | "lt" => some '<'
  | "gt" => some '>'
  | "quot" => some '"'
  | "apos" => some '\''
  | _ => none

/-- Reads a reference, whose `&` was read before. -/
def Reference.scan? (cs : List Char) : Option (Reference × List Char) :=
  match cs with
  | '#' :: 'x' :: rest => do
    let (digits, rest) ← splitAt? [';'] rest
    return (.char (← charOfNumber? (← numberOfDigits? 16 digits)), rest)
  | '#' :: rest => do
    let (digits, rest) ← splitAt? [';'] rest
    return (.char (← charOfNumber? (← numberOfDigits? 10 digits)), rest)
  | _ => do
    let (name, rest) ← scanName? cs
    let rest ← expect? [';'] rest
    let name := String.ofList name
    match namedChar? name with
    | some c => return (.char c, rest)
    | none => return (.entity name, rest)

/-! ## Values of attributes -/

/-- A piece of an attribute's value: text, or a reference to an entity. -/
inductive ValuePiece
  | literal (cs : List Char)
  | reference (name : String)
deriving DecidableEq, Repr

/-- A piece of text in front of other pieces. -/
def consLiteral (c : Char) : List ValuePiece → List ValuePiece
  | .literal cs :: rest => .literal (c :: cs) :: rest
  | pieces => .literal [c] :: pieces

/-- The pieces of an attribute's value. White space becomes blanks, and `<` is refused. The first
argument bounds the number of characters. -/
def valuePieces? : Nat → List Char → Option (List ValuePiece)
  | _, [] => some []
  | 0, _ :: _ => none
  | fuel + 1, c :: cs =>
    if c == '<' then none
    else if c == '&' then do
      let (reference, rest) ← Reference.scan? cs
      match reference with
      | .char c => return consLiteral c (← valuePieces? fuel rest)
      | .entity name => return .reference name :: (← valuePieces? fuel rest)
    else if isSpace c then (valuePieces? fuel cs).map (consLiteral ' ')
    else if isDocumentChar c then (valuePieces? fuel cs).map (consLiteral c)
    else none

/-- The definition of an entity: a text that replaces it, or a file. An unparsed entity cannot be
referred to. -/
inductive EntityValue
  | internal (text : String)
  | external
  | unparsed
deriving DecidableEq, Repr

/-- The value of an attribute with its entities replaced. The first argument bounds how deeply
entities are nested; an entity in its own replacement is refused, and so is one that is not a
text. -/
def expandValue? (entity? : String → Option EntityValue) :
    Nat → List String → List ValuePiece → Option (List Char)
  | 0, _, _ => none
  | depth + 1, active, pieces => do
    let expanded ← pieces.mapM fun
      | .literal cs => some cs
      | .reference name =>
        match entity? name with
        | some (.internal text) =>
          if name ∈ active then none
          else do
            let inner ← valuePieces? text.toList.length text.toList
            expandValue? entity? depth (name :: active) inner
        | _ => none
    return expanded.flatten

/-- The words of a value with single blanks between them. Other white space, which only references
to characters can bring in, belongs to the words. -/
def tokenized (cs : List Char) : List Char :=
  [' '].intercalate ((Text.splitAtP (· == ' ') cs).filter (!·.isEmpty))

end XmlMacros.Markup
