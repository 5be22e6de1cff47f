import XmlMacros.Decimal.Numeral
import XmlMacros.Text.Blank

/-!
# Conditions

Whether an evaluated text counts as true. A text that starts with a number counts as that number,
whatever follows it.
-/

namespace XmlMacros

open XmlMacros.Decimal

/-- The number at the start of a text, after white space and a sign, without the sign. -/
def leadingNumber? (text : String) : Option Scaled :=
  (Numeral.scan? (scanSign (Text.dropBlanks text.toList)).2).map fun (n, _) => n.scaled

/-- Whether a text counts as true: a text that starts with a number does unless the number is zero
as a double; `true` does, `false` and the empty text do not, and all other texts do. -/
def holds (text : String) : Bool :=
  match leadingNumber? text with
  | some n => !n.vanishes
  | none => text == "true" || (text != "false" && text != "")

end XmlMacros
