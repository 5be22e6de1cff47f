import XmlMacros.Text.Path
import XmlMacros.Timestamp
import XmlMacros.Yaml.Scalar

/-!
# Sorts of nodes

A tag says of which sort a node is. A scalar whose tag is left open is of the sort that its text
looks like: nothing, a truth value, an integer, a double, a timestamp, or else a text. Two texts
have a meaning as keys of a mapping: `<<` and `=`.
-/

namespace XmlMacros.Yaml

open XmlMacros.Text

/-- The sorts of nodes. -/
inductive Kind
  | null
  | bool
  | int
  | float
  | binary
  | timestamp
  | text
  | sequence
  | mapping
  | set
  /-- A list of keys with their values. -/
  | pairs
  /-- A key under which a mapping takes over the entries of others. -/
  | merge
  /-- A key under which a mapping holds a scalar that stands for all of it. -/
  | default
  | unknown
deriving DecidableEq, Repr

/-- The sort that a tag names. -/
def Kind.ofTag (tag : String) : Kind :=
  (([("null", Kind.null), ("bool", .bool), ("int", .int), ("float", .float), ("binary", .binary),
    ("timestamp", .timestamp), ("str", .text), ("seq", .sequence), ("map", .mapping),
    ("set", .set), ("omap", .pairs), ("pairs", .pairs), ("merge", .merge),
    ("value", .default)].map fun (name, kind) =>
      ("tag:yaml.org,2002:" ++ name, kind)).lookup tag).getD .unknown

/-! ## How scalars look -/

/-- The texts that stand for truth values, in lower case. -/
def truthValues : List (String × Bool) :=
  [("yes", true), ("no", false), ("true", true), ("false", false), ("on", true), ("off", false)]

/-- The text in lower case, capitalized and in upper case. -/
def casings (s : String) : List String :=
  [s, String.ofList (match s.toList with
    | [] => []
    | c :: cs => c.toUpper :: cs), String.ofList (s.toList.map Char.toUpper)]

/-- Whether a text looks like a truth value. -/
def looksBool (s : String) : Bool :=
  truthValues.any fun (name, _) => (casings name).contains s

/-- Whether a text looks like nothing. -/
def looksNull (s : String) : Bool :=
  s == "" || s == "~" || (casings "null").contains s

/-- Whether a character may go on a row of digits: an underscore has no meaning there. -/
def isSpacedDigit (c : Char) : Bool :=
  c.isDigit || c == '_'

/-- The characters after a sign. -/
def afterSign : List Char → List Char
  | '+' :: cs => cs
  | '-' :: cs => cs
  | cs => cs

/-- Whether a text is a step of a number to base sixty: one digit, or two of which the first is at
most five. -/
def isSixtieth (cs : List Char) : Bool :=
  match cs with
  | [a] => a.isDigit
  | [a, b] => a.isDigit && a ≤ '5' && b.isDigit
  | _ => false

/-- The pieces of a text between colons. -/
def steps (cs : List Char) : List (List Char) :=
  Text.splitAtP (· == ':') cs

/-- Whether a text looks like a row of digits, perhaps with underscores after the first. -/
def isSpacedNumber (cs : List Char) : Bool :=
  (cs.head?.any Char.isDigit) && cs.all isSpacedDigit

/-- Whether a text looks like an integer: decimal, to base two, eight or sixteen, or to
base sixty. -/
def looksInt (s : String) : Bool :=
  match afterSign s.toList with
  | '0' :: 'b' :: cs => !cs.isEmpty && cs.all fun c => c == '0' || c == '1' || c == '_'
  | '0' :: 'x' :: cs => !cs.isEmpty && cs.all fun c => (hexValue? c).isSome || c == '_'
  | '0' :: cs => cs.all fun c => ('0' ≤ c && c ≤ '7') || c == '_'
  | cs =>
    match steps cs with
    | [] => false
    | first :: more => isSpacedNumber first && more.all isSixtieth

/-- Whether a text looks like an exponent, or is empty. The exponent has a sign. -/
def looksExponent (cs : List Char) : Bool :=
  match cs with
  | [] => true
  | mark :: sign :: digits =>
    (mark == 'e' || mark == 'E') && (sign == '+' || sign == '-') && !digits.isEmpty
      && digits.all Char.isDigit
  | _ => false

/-- Whether a text looks like digits with a point in front of or among them. -/
def looksPointed (cs : List Char) : Bool :=
  let whole := cs.takeWhile isSpacedDigit
  match cs.dropWhile isSpacedDigit with
  | '.' :: rest =>
    isSpacedNumber whole && looksExponent (rest.dropWhile isSpacedDigit)
  | _ => false

/-- Whether a text looks like a number to base sixty with a point. -/
def looksSixtiethPointed (cs : List Char) : Bool :=
  match steps cs with
  | [] | [_] => false
  | first :: more =>
    isSpacedNumber first && more.dropLast.all isSixtieth
      && isSixtieth ((more.getLastD []).takeWhile (· != '.'))
      && match (more.getLastD []).dropWhile (· != '.') with
        | _ :: rest => rest.all isSpacedDigit
        | [] => false

/-- Whether a text looks like a double. Doubles have a point, and their exponents a sign. -/
def looksFloat (s : String) : Bool :=
  let cs := s.toList
  let rest := afterSign cs
  let startsWithPoint := match cs with
    | '.' :: c :: more => c.isDigit && looksExponent (more.dropWhile isSpacedDigit)
    | _ => false
  looksPointed rest || startsWithPoint || looksSixtiethPointed rest
    || [".inf", ".Inf", ".INF"].contains (String.ofList rest)
    || [".nan", ".NaN", ".NAN"].contains s

/-- Whether a text looks like a timestamp. Without a time of day month and day have two digits. -/
def looksTimestamp (cs : List Char) : Bool :=
  match Timestamp.read? cs with
  | some t => t.time.isSome || cs.length == 10
  | none => false

/-- A text without the line end at its end. -/
def withoutFinalBreak (cs : List Char) : List Char :=
  if cs.getLast? == some '\n' then cs.dropLast else cs

/-- The sort that a text looks like. A line end at its end does not count, unless there is nothing
else. -/
def Kind.ofPlain (text : List Glyph) : Kind :=
  match Glyph.chars? text with
  | none => .text
  | some cs =>
    let cs := if cs == ['\n'] then cs else withoutFinalBreak cs
    let s := String.ofList cs
    if looksBool s then .bool
    else if looksFloat s then .float
    else if looksInt s then .int
    else if s == "<<" then .merge
    else if looksNull s then .null
    else if looksTimestamp cs then .timestamp
    else if s == "=" then .default
    else if s == "!" || s == "&" || s == "*" then .unknown
    else .text

end XmlMacros.Yaml
