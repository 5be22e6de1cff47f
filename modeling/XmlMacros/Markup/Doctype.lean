import XmlMacros.Markup.Reference

/-!
# Document type declarations

The declarations in front of a document. Entities are texts with names. Attributes may be declared
to hold words, or to be there where an element does not give them. Of several declarations of a name
the first one counts.

A declaration is read as a list of parts (`Part`), which white space divides, and the list is then
matched against the grammar. Declarations may stand outside of the document or in parameter
entities. Those are not read, so what they would declare is unknown (`Doctype.incomplete`), and
after a reference to a parameter entity only a document that stands alone has its declarations
heeded.
-/

namespace XmlMacros.Markup

/-- Why a text is not a document. -/
inductive ReadError
  | malformed
  /-- The content of an element was declared twice. -/
  | redeclared
deriving DecidableEq, Repr

/-- The result of a reader that does not say why it fails. -/
def wellFormed (x : Option α) : Except ReadError α :=
  match x with
  | some a => .ok a
  | none => .error .malformed

/-! ## Parts of declarations -/

/-- A part of a declaration. -/
inductive Part
  /-- A name without a colon. -/
  | name (text : String)
  /-- A name with one colon inside. -/
  | qualified (text : String)
  /-- Any other row of characters of names. -/
  | word (text : String)
  /-- A name with a mark for how often it occurs. -/
  | counted (text : String)
  /-- A name after a number sign. -/
  | keyword (text : String)
  | literal (cs : List Char)
  | openGroup
  /-- The end of a group, perhaps with a mark for how often the group occurs. -/
  | closeGroup (mark : Option Char)
  | comma
  | bar
  | openSubset
  | percent
  | close
deriving DecidableEq, Repr

namespace Part

/-- Whether a mark says how often something occurs. -/
def isCount (c : Char) : Bool :=
  c == '*' || c == '?' || c == '+'

/-- Whether a name may be followed by the character. -/
def mayFollowName (c : Char) : Bool :=
  isSpace c || ['>', ')', ',', '|', '[', '%'].contains c

/-- Whether a name after a number sign may be followed by the character. -/
def mayFollowKeyword (c : Char) : Bool :=
  isSpace c || ['>', ')', '|', '%'].contains c

/-- Whether a text in quotes may be followed by the character. -/
def mayFollowLiteral (c : Char) : Bool :=
  isSpace c || ['>', '[', '%'].contains c

/-- Whether the end of a group may be followed by the character. -/
def mayFollowGroup (c : Char) : Bool :=
  isSpace c || ['>', ')', ',', '|'].contains c

/-- The part that a row of characters of names and colons is. -/
def ofRow (row : List Char) : Part :=
  let text := String.ofList row
  let afterColon := (row.dropWhile (· != ':')).drop 1
  if !row.head?.any isNameStart then .word text
  else if !row.contains ':' then .name text
  else if afterColon.isEmpty || afterColon.contains ':' then .word text
  else .qualified text

/-- Reads a name, or another row of characters of names. -/
def scanRow? (cs : List Char) : Option (Part × List Char) :=
  let goesOn (c : Char) : Bool := isNameRest c || c == ':'
  let row := cs.takeWhile goesOn
  if row.isEmpty then none
  else
    match ofRow row, cs.dropWhile goesOn with
    | _, [] => none
    | part, c :: rest =>
      if mayFollowName c then some (part, c :: rest)
      else if isCount c then
        match part with
        | .name text | .qualified text => some (.counted text, rest)
        | _ => none
      else none

/-- A part, if the text goes on with a character that may follow it. -/
def before? (mayFollow : Char → Bool) (part : Part) (rest : List Char) :
    Option (Part × List Char) :=
  if rest.head?.any mayFollow then some (part, rest) else none

/-- Reads a part. -/
def scan? (cs : List Char) : Option (Part × List Char) :=
  match cs with
  | '(' :: rest => some (.openGroup, rest)
  | ')' :: c :: rest =>
    if isCount c then some (.closeGroup (some c), rest)
    else before? mayFollowGroup (.closeGroup none) (c :: rest)
  | ',' :: rest => some (.comma, rest)
  | '|' :: rest => some (.bar, rest)
  | '[' :: rest => some (.openSubset, rest)
  | '>' :: rest => some (.close, rest)
  | '%' :: rest => before? (fun c => isSpace c || c == '%') .percent rest
  | '#' :: rest => do
    let (row, rest) ← scanName? rest
    before? mayFollowKeyword (.keyword (String.ofList row)) rest
  | '"' :: _ | '\'' :: _ => do
    let (text, rest) ← scanQuoted? cs
    guard (text.all isDocumentChar)
    before? mayFollowLiteral (.literal text) rest
  | _ => scanRow? cs

/-- Whether a part ends a declaration. -/
def isClose (p : Part) : Bool := p == .close

/-- Reads parts up to one that ends them, that one included, and gives back the rest. There is no
rest if the text stops being made of parts before. The second argument bounds their number. -/
def scanTo (ends : Part → Bool) : Nat → List Char → List Part × Option (List Char)
  | 0, _ => ([], none)
  | fuel + 1, cs =>
    match scan? (skipSpace cs) with
    | none => ([], none)
    | some (part, rest) =>
      if ends part then ([part], some rest)
      else
        let (parts, rest) := scanTo ends fuel rest
        (part :: parts, rest)

/-- Reads the parts of a declaration. -/
def scanDeclaration (cs : List Char) : List Part × Option (List Char) :=
  scanTo isClose (cs.length + 1) cs

/-- The text of a part that is a name, with or without a colon. -/
def anyName? : Part → Option String
  | .name text | .qualified text => some text
  | _ => none

/-- The text of a part that is any row of characters of names. -/
def anyWord? : Part → Option String
  | .name text | .qualified text | .word text => some text
  | _ => none

end Part

/-- Whether a character may stand in a public identifier. -/
def isPublicIdChar (c : Char) : Bool :=
  c.isAlphanum || " \r\n-'()+,./:=?;!*#@$_%".toList.contains c

/-! ## Element declarations -/

/-- Passes the rest of a content model. The first argument holds, for every open group, the mark
between its items if one was met; the second says whether an item must follow. -/
def skipModel? : List (Option Part) → Bool → List Part → Option (List Part)
  | [], _, parts => some parts
  | _ :: _, _, [] => none
  | mark :: outer, true, part :: parts =>
    match part with
    | .openGroup => skipModel? (none :: mark :: outer) true parts
    | .name _ | .qualified _ | .counted _ => skipModel? (mark :: outer) false parts
    | _ => none
  | mark :: outer, false, part :: parts =>
    match part with
    | .closeGroup _ => skipModel? outer false parts
    | .comma | .bar =>
      if mark.all (· == part) then skipModel? (some part :: outer) true parts else none
    | _ => none

/-- Passes the names of a content model that mixes text and elements, each after its bar. -/
def skipMixedNames? : List Part → Option (List Part)
  | .closeGroup (some '*') :: parts => some parts
  | .bar :: part :: parts => if part.anyName?.isSome then skipMixedNames? parts else none
  | _ => none

/-- Passes the content that an element is declared to have. -/
def skipContent? : List Part → Option (List Part)
  | .name "EMPTY" :: parts | .name "ANY" :: parts => some parts
  | .openGroup :: .keyword "PCDATA" :: .closeGroup none :: parts => some parts
  | .openGroup :: .keyword "PCDATA" :: parts => skipMixedNames? parts
  | .openGroup :: parts => skipModel? [none] true parts
  | _ => none

/-! ## Attribute declarations -/

/-- The sorts of attributes that have a name, and whether their values are made of words. -/
def attributeSorts : List (String × Bool) :=
  [("CDATA", false), ("ID", true), ("IDREF", true), ("IDREFS", true), ("ENTITY", true),
    ("ENTITIES", true), ("NMTOKEN", true), ("NMTOKENS", true)]

/-- Passes the choices of an attribute up to the end of their group. -/
def skipChoices? (isChoice : Part → Bool) : List Part → Option (List Part)
  | choice :: .closeGroup none :: parts => if isChoice choice then some parts else none
  | choice :: .bar :: parts => if isChoice choice then skipChoices? isChoice parts else none
  | _ => none

/-- Reads the sort of an attribute: whether its value is made of words. -/
def attributeSort? : List Part → Option (Bool × List Part)
  | .name "NOTATION" :: .openGroup :: parts =>
    (skipChoices? (fun p => p matches .name _) parts).map (true, ·)
  | .name sort :: parts => (attributeSorts.lookup sort).map (·, parts)
  | .openGroup :: parts => (skipChoices? (fun p => p.anyWord?.isSome) parts).map (true, ·)
  | _ => none

/-- Reads what holds where an element does not give an attribute: a value, or none. -/
def attributeDefault? : List Part → Option (Option (List Char) × List Part)
  | .keyword "IMPLIED" :: parts | .keyword "REQUIRED" :: parts => some (none, parts)
  | .keyword "FIXED" :: .literal value :: parts => some (some value, parts)
  | .literal value :: parts => some (some value, parts)
  | _ => none

/-! ## Entity and notation declarations -/

/-- Where the text of an entity comes from. -/
inductive EntitySource
  | literal (value : List Char)
  | file
  | unparsedFile

/-- Passes the identifier of an external file. -/
def skipExternalId? : List Part → Option (List Part)
  | .name "SYSTEM" :: .literal _ :: parts => some parts
  | .name "PUBLIC" :: .literal identifier :: .literal _ :: parts =>
    if identifier.all isPublicIdChar then some parts else none
  | _ => none

/-- Reads what an entity is declared to be. Only a general entity may be unparsed. -/
def entitySource? (general : Bool) : List Part → Option EntitySource
  | [.literal value, .close] => some (.literal value)
  | parts =>
    match skipExternalId? parts with
    | some [.close] => some .file
    | some [.name "NDATA", .name _, .close] => if general then some .unparsedFile else none
    | _ => none

/-- Whether the parts declare a notation. -/
def isNotation : List Part → Bool
  | [.name _, .name "PUBLIC", .literal identifier, .close] => identifier.all isPublicIdChar
  | .name _ :: parts => skipExternalId? parts == some [.close]
  | _ => false

/-- The replacement text of an entity: references to characters are resolved, references to
entities are kept. The first argument bounds the number of characters. -/
def replacementText? : Nat → List Char → Option (List Char)
  | _, [] => some []
  | 0, _ :: _ => none
  | fuel + 1, c :: cs =>
    if c == '%' then none
    else if c == '&' then
      match cs with
      | '#' :: _ => do
        let (reference, rest) ← Reference.scan? cs
        match reference with
        | .char c => return c :: (← replacementText? fuel rest)
        | .entity _ => none
      | _ => do
        let (name, rest) ← scanName? cs
        let rest ← expect? [';'] rest
        return '&' :: name ++ ';' :: (← replacementText? fuel rest)
    else (replacementText? fuel cs).map (c :: ·)

/-! ## What the declarations say -/

/-- How an attribute of an element was declared. -/
structure AttrRule where
  element : String
  name : QName
  /-- Whether the value is made of words. -/
  tokenized : Bool
  /-- The value where an element does not give the attribute. -/
  fallback : Option String
deriving DecidableEq, Repr

/-- What the declarations say, as far as reading depends on it. -/
structure Doctype where
  /-- Whether the document says that it stands alone, so that all its entities are declared
  in it. -/
  standalone : Bool
  /-- Whether there may be declarations that are not read. -/
  incomplete : Bool := false
  /-- Whether declarations are still heeded. -/
  heeded : Bool := true
  /-- The entities that are declared. -/
  entities : List (String × EntityValue) := []
  attributes : List AttrRule := []
  /-- The elements whose content is declared. -/
  elements : List String := []
deriving DecidableEq, Repr

namespace Doctype

/-- What an entity stands for: nothing for a reference that is refused, and a file for one that may
be declared elsewhere, since both are passed over. -/
def entity? (d : Doctype) (name : String) : Option EntityValue :=
  match d.entities.lookup name with
  | some value => some value
  | none => if d.incomplete && !d.standalone then some .external else none

/-- What an entity stands for in the value of an attribute, where one that may be declared elsewhere
has no text. -/
def entityInValue? (d : Doctype) (name : String) : Option EntityValue :=
  match d.entities.lookup name with
  | some value => some value
  | none => if d.incomplete && !d.standalone then some (.internal "") else none

/-- How deeply replacements can be nested: one level for each entity, one for a reference that may
be unknown, and one for the text itself. -/
def entityDepth (d : Doctype) : Nat :=
  d.entities.length + 2

/-- The value that an attribute has with its references replaced. -/
def value? (d : Doctype) (words : Bool) (pieces : List ValuePiece) : Option String := do
  let value ← expandValue? d.entityInValue? d.entityDepth [] pieces
  return String.ofList (if words then tokenized value else value)

/-- The declared attributes of an element. -/
def rulesOf (d : Doctype) (element : String) : List AttrRule :=
  d.attributes.filter (·.element == element)

/-- Whether the value of an attribute is made of words. -/
def isTokenized (d : Doctype) (element : String) (name : QName) : Bool :=
  ((d.rulesOf element).find? (·.name == name)).any (·.tokenized)

/-- Takes in the declaration of an attribute. -/
def addRule (d : Doctype) (rule : AttrRule) : Doctype :=
  if (d.rulesOf rule.element).any (·.name == rule.name) then d
  else { d with attributes := d.attributes ++ [rule] }

/-- Takes in the declaration of an entity. Those that every document has stay as they are. -/
def addEntity (d : Doctype) (name : String) (value : EntityValue) : Doctype :=
  if (namedChar? name).isSome || (d.entities.lookup name).isSome then d
  else { d with entities := d.entities ++ [(name, value)] }

/-- Takes in a reference to a parameter entity. -/
def passReference (d : Doctype) : Doctype :=
  { d with incomplete := true, heeded := d.standalone }

/-- Takes in the declaration of an entity. -/
def declareEntity? (d : Doctype) (parts : List Part) : Option Doctype := do
  let (general, parts) := match parts with
    | .percent :: parts => (false, parts)
    | parts => (true, parts)
  match parts with
  | .name name :: parts =>
    let source ← entitySource? general parts
    if !d.heeded then return d
    let value ← match source with
      | .literal cs => (replacementText? cs.length cs).map fun text =>
        EntityValue.internal (String.ofList text)
      | .file => some .external
      | .unparsedFile => some .unparsed
    return if general then d.addEntity name value else d
  | _ => none

/-- Takes in the declaration of one attribute. -/
def declareAttribute? (d : Doctype) (element name : String) (words : Bool)
    (fallback : Option (List Char)) : Option Doctype :=
  if !d.heeded then some d
  else
    match fallback with
    | none => some (d.addRule ⟨element, .ofText name, words, none⟩)
    | some cs => do
      let value ← d.value? words (← valuePieces? cs.length cs)
      return d.addRule ⟨element, .ofText name, words, some value⟩

/-- Takes in the declarations of the attributes of an element. The second argument bounds their
number. -/
def declareAttributes? (element : String) : Nat → Doctype → List Part → Option Doctype
  | _, d, [.close] => some d
  | fuel + 1, d, part :: parts => do
    let name ← part.anyName?
    let (words, parts) ← attributeSort? parts
    let (fallback, parts) ← attributeDefault? parts
    declareAttributes? element fuel (← d.declareAttribute? element name words fallback) parts
  | _, _, _ => none

/-- Takes in the declaration of an element's content. It is complete before the declaration ends, so
a second one is noticed first. -/
def declareElement (d : Doctype) : List Part → Except ReadError Doctype
  | [] => .error .malformed
  | part :: parts => do
    let name ← wellFormed part.anyName?
    let rest ← wellFormed (skipContent? parts)
    if d.elements.contains name then throw .redeclared
    if rest == [.close] then return { d with elements := name :: d.elements }
    else throw .malformed

/-- Takes in a declaration, of which the keyword was read before. -/
def declare (d : Doctype) (keyword : String) (parts : List Part) : Except ReadError Doctype :=
  match keyword with
  | "ENTITY" => wellFormed (d.declareEntity? parts)
  | "ELEMENT" => d.declareElement parts
  | "NOTATION" => if isNotation parts then .ok d else .error .malformed
  | _ =>
    match parts with
    | part :: parts => wellFormed (do
        declareAttributes? (← part.anyName?) parts.length d parts)
    | [] => .error .malformed

/-- Takes the keyword of a declaration off a text. -/
def scanKeyword? (cs : List Char) : Option (String × List Char) :=
  ["ENTITY", "ELEMENT", "ATTLIST", "NOTATION"].findSome? fun keyword =>
    (expect? keyword.toList cs).map (keyword, ·)

/-- Reads the declarations inside a document type declaration up to its closing bracket. The second
argument bounds their number. -/
def readSubset : Nat → Doctype → List Char → Except ReadError (Doctype × List Char)
  | 0, _, _ => .error .malformed
  | fuel + 1, d, cs =>
    match skipSpace cs with
    | ']' :: rest => .ok (d, rest)
    | '%' :: rest => do
      let (_, rest) ← wellFormed (scanName? rest)
      let rest ← wellFormed (expect? [';'] rest)
      readSubset fuel d.passReference rest
    | '<' :: '?' :: rest => do
      let (_, rest) ← wellFormed (scanInstruction? rest)
      readSubset fuel d rest
    | '<' :: '!' :: '-' :: '-' :: rest => do
      let (_, rest) ← wellFormed (scanComment? rest)
      readSubset fuel d rest
    | '<' :: '!' :: rest => do
      let (keyword, rest) ← wellFormed (scanKeyword? rest)
      let rest ← wellFormed (skipSomeSpace? rest)
      let (parts, rest) := Part.scanDeclaration rest
      let d ← d.declare keyword parts
      readSubset fuel d (← wellFormed rest)
    | _ => .error .malformed

/-- Reads a document type declaration, whose keyword was read before. -/
def read (standalone : Bool) (cs : List Char) : Except ReadError (Doctype × List Char) := do
  let cs ← wellFormed (skipSomeSpace? cs)
  let (parts, rest) := Part.scanTo (fun p => p == .close || p == .openSubset) (cs.length + 1) cs
  let rest ← wellFormed rest
  match parts with
  | [] => .error .malformed
  | part :: parts =>
    let _ ← wellFormed part.anyName?
    let d : Doctype := { standalone := standalone }
    let external := skipExternalId? parts
    let d := { d with incomplete := external.isSome }
    match external.getD parts with
    | [.close] => return (d, rest)
    | [.openSubset] =>
      let (d, rest) ← readSubset (rest.length + 1) d rest
      return (d, ← wellFormed (expect? ['>'] (skipSpace rest)))
    | _ => .error .malformed

end Doctype

end XmlMacros.Markup
