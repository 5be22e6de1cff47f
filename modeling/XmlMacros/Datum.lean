import XmlMacros.Expr.Value
import XmlMacros.Text.Glyph
import XmlMacros.Timestamp

/-!
# Data of any sort

The values that a configuration may hold, before anything is asked of them: nothing, truth values,
numbers, texts, bytes, timestamps, lists, sets and tables. Tables keep the order of their entries;
their keys may be data of any sort. A list or a table may hold itself; where it comes again inside
of itself there stands a mark (`Datum.cycle`).
-/

namespace XmlMacros

open XmlMacros.Expr XmlMacros.Text

/-- A value of any sort. -/
inductive Datum
  | null
  | bool (b : Bool)
  | int (n : Int)
  | float (x : Float)
  | text (s : String)
  /-- A text in which halves of surrogate pairs stand. -/
  | halves (text : HalvedText)
  | bytes (bs : List UInt8)
  | moment (t : Timestamp)
  | list (items : List Datum)
  | pair (first second : Datum)
  | set (members : List Datum)
  | table (entries : List (Datum × Datum))
  /-- A list or a table that the value stands in. -/
  | cycle (isTable : Bool)
deriving Inhabited, Repr

namespace Datum

/-- A text of glyphs. -/
def ofGlyphs (text : List Glyph) : Datum :=
  match h : Glyph.chars? text with
  | some cs => .text (String.ofList cs)
  | none => .halves ⟨text, h⟩

/-- Whether a value counts as true: it is not nothing, false, zero or empty. -/
def isTruthy : Datum → Bool
  | .null => false
  | .bool b => b
  | .int n => n != 0
  | .float x => !Decimal.equalsInt x 0
  | .text s => s != ""
  | .bytes bs => !bs.isEmpty
  | .list items => !items.isEmpty
  | .set members => !members.isEmpty
  | .table entries => !entries.isEmpty
  | .halves _ | .moment _ | .pair _ _ | .cycle _ => true

mutual

/-- A value as it is shown inside of others: texts are quoted. -/
def describe : Datum → String
  | .null => "None"
  | .bool b => if b then "True" else "False"
  | .int n => toString n
  | .float x => floatLayout.writeFloat x
  | .text s => Text.quoted s
  | .halves t => Glyph.quoted t.glyphs
  | .bytes bs => quotedBytes bs
  | .moment t => t.describe
  | .list items => "[" ++ ", ".intercalate (describeItems items) ++ "]"
  | .pair first second => "(" ++ first.describe ++ ", " ++ second.describe ++ ")"
  | .set [] => "set()"
  | .set (d :: rest) =>
    "\x7b" ++ ", ".intercalate (d.describe :: describeItems rest) ++ "\x7d"
  | .table entries => "\x7b" ++ ", ".intercalate (describeEntries entries) ++ "\x7d"
  | .cycle isTable => if isTable then "\x7b...\x7d" else "[...]"

/-- The items of a list as they are shown. -/
def describeItems : List Datum → List String
  | [] => []
  | d :: rest => d.describe :: describeItems rest

/-- The entries of a table as they are shown. -/
def describeEntries : List (Datum × Datum) → List String
  | [] => []
  | (k, v) :: rest => (k.describe ++ ": " ++ v.describe) :: describeEntries rest

end

mutual

/-- Whether a test holds of a value or of some value inside of it. -/
def holdsAny (p : Datum → Bool) : Datum → Bool
  | .list items => p (.list items) || anyItem p items
  | .pair first second => p (.pair first second) || holdsAny p first || holdsAny p second
  | .set members => p (.set members) || anyItem p members
  | .table entries => p (.table entries) || anyEntry p entries
  | d => p d

/-- Whether a test holds of some value in a list. -/
def anyItem (p : Datum → Bool) : List Datum → Bool
  | [] => false
  | d :: rest => holdsAny p d || anyItem p rest

/-- Whether a test holds of some value in the entries of a table. -/
def anyEntry (p : Datum → Bool) : List (Datum × Datum) → Bool
  | [] => false
  | (k, v) :: rest => holdsAny p k || holdsAny p v || anyEntry p rest

end

/-- Whether an integer has more digits than are written. -/
def isLongInteger : Datum → Bool
  | .int n => Decimal.pow10 digitLimit ≤ n.natAbs
  | _ => false

/-- Whether a value can be shown: no integer in it is too long. -/
def isShowable (d : Datum) : Bool :=
  !d.holdsAny isLongInteger

/-- Whether a value holds itself. -/
def isEndless (d : Datum) : Bool :=
  d.holdsAny fun
    | .cycle _ => true
    | _ => false

/-- The name of the sort of a value in messages. -/
def sortName : Datum → String
  | .null => "NoneType"
  | .bool _ => "bool"
  | .int _ => "int"
  | .float _ => "float"
  | .text _ | .halves _ => "str"
  | .bytes _ => "bytes"
  | .moment t => t.sortName
  | .list _ => "list"
  | .pair _ _ => "tuple"
  | .set _ => "set"
  | .table _ => "dict"
  | .cycle isTable => if isTable then "dict" else "list"

/-- The text that a value is. -/
def text? : Datum → Option String
  | .text s => some s
  | .halves t => some (String.ofList (Glyph.joined t.glyphs))
  | _ => none

/-- A value as a text: that of a text is the text itself. -/
def toText (d : Datum) : String :=
  match d with
  | .moment t => t.toText
  | d => d.text?.getD d.describe

/-- The values that a value is made of, one after the other: items, members, keys or characters. -/
def elements? : Datum → Option (List Datum)
  | .text s => some (s.toList.map fun c => .text (String.ofList [c]))
  | .halves t => some (t.glyphs.map fun g => ofGlyphs [g])
  | .bytes bs => some (bs.map fun b => .int b.toNat)
  | .list items => some items
  | .pair first second => some [first, second]
  | .set members => some members
  | .table entries => some (entries.map Prod.fst)
  | _ => none

/-- Whether a value may be a key. -/
def isKey : Datum → Bool
  | .list _ | .set _ | .table _ | .cycle _ => false
  | .pair first second => first.isKey && second.isKey
  | _ => true

/-- The number that a value is the same as when it is a key. -/
def keyNumber? : Datum → Option Number
  | .bool b => some (.int (if b then 1 else 0))
  | .int n => some (.int n)
  | .float x => some (.float x)
  | _ => none

/-- Whether two values are the same key. Numbers are compared by their value. -/
def sameKey (a b : Datum) : Bool :=
  match a, b with
  | .null, .null => true
  | .text s, .text t => s == t
  | .halves s, .halves t => s == t
  | .bytes s, .bytes t => s == t
  | .moment s, .moment t => s.isSameAs t
  | a, b =>
    match a.keyNumber?, b.keyNumber? with
    | some x, some y => x.equals y
    | _, _ => false

/-- The integer that a value is as a member of a set. -/
def wholeNumber? : Datum → Option Int
  | .bool b => some (if b then 1 else 0)
  | .int n => some n
  | _ => none

/-- The number of slots for the members of a set: a power of two, at least eight, and from five
members on more than twice their number. The first argument bounds the power. -/
def slotsFor (size : Nat) : Nat → Nat
  | 0 => 8
  | power + 1 =>
    let slots := slotsFor size power
    if 5 ≤ size && slots ≤ 2 * size then 2 * slots else slots

/-- The members of a set in the order in which they are listed. Integers stand at their remainder
for the number of slots, where the place of -1 is that of -2; others stay as they came. -/
def arranged (members : List Datum) : List Datum :=
  match members.mapM wholeNumber? with
  | none => members
  | some numbers =>
    let slots := slotsFor members.length members.length
    let place (n : Int) : Int := (if n == -1 then -2 else n) % slots
    ((members.zip numbers).mergeSort fun a b => decide (place a.2 ≤ place b.2)).map Prod.fst

/-- Entries with a value written for a key. A key that is there keeps its place. -/
def insertEntry (key value : Datum) : List (Datum × Datum) → List (Datum × Datum)
  | [] => [(key, value)]
  | (k, v) :: rest =>
    if k.sameKey key then (k, value) :: rest else (k, v) :: insertEntry key value rest

/-- The value of a text as a key. -/
def lookupEntry? (key : String) (entries : List (Datum × Datum)) : Option Datum :=
  (entries.find? fun (k, _) => k.sameKey (.text key)).map Prod.snd

end Datum

end XmlMacros
