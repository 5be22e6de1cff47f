import XmlMacros.Text.Printable

/-!
# Quoted texts

How a text is shown inside a message: between quotes, with escapes for the quote itself, the
backslash, line ends, tabs and everything that is not printable. Single quotes are used unless
the text has one and no double quote.
-/

namespace XmlMacros.Text

/-- The lower-case hexadecimal digits of a number, padded with zeros to a width. -/
def hexDigits (width n : Nat) : String :=
  let digits := Nat.toDigits 16 n
  String.ofList (List.replicate (width - digits.length) '0' ++ digits)

/-- One character of a quoted text, where `quote` is the quote around it. -/
def escapeChar (quote c : Char) : String :=
  if c == quote || c == '\\' then String.ofList ['\\', c]
  else if c == '\n' then "\\n"
  else if c == '\r' then "\\r"
  else if c == '\t' then "\\t"
  else if isPrintable c then String.ofList [c]
  else if c.toNat < 0x100 then "\\x" ++ hexDigits 2 c.toNat
  else if c.toNat < 0x10000 then "\\u" ++ hexDigits 4 c.toNat
  else "\\U" ++ hexDigits 8 c.toNat

/-- The quote that surrounds a text: double quotes if that saves escaping a single quote. -/
def quoteFor (s : String) : Char :=
  if s.toList.contains '\'' && !s.toList.contains '"' then '"' else '\''

/-- The text between quotes, with escapes. -/
def quoted (s : String) : String :=
  let quote := quoteFor s
  let body := String.join (s.toList.map (escapeChar quote))
  String.ofList [quote] ++ body ++ String.ofList [quote]

/-- One byte of quoted bytes, where `quote` is the quote around them. -/
def escapeByte (quote : Char) (b : UInt8) : String :=
  if 0x7F ≤ b then "\\x" ++ hexDigits 2 b.toNat else escapeChar quote (Char.ofNat b.toNat)

/-- Bytes between quotes, with escapes and a mark in front. -/
def quotedBytes (bytes : List UInt8) : String :=
  let quote := quoteFor (String.ofList (bytes.map fun b => Char.ofNat b.toNat))
  "b" ++ String.ofList [quote] ++ String.join (bytes.map (escapeByte quote))
    ++ String.ofList [quote]

/-- A list of texts as it is shown in messages: `['a', 'b']`. -/
def quotedList (items : List String) : String :=
  "[" ++ ", ".intercalate (items.map quoted) ++ "]"

end XmlMacros.Text
