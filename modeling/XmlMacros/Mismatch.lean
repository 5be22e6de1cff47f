import XmlMacros.Datum

/-!
# Settings of the wrong sort

A configuration may give any value to a setting. Only when the setting is used does it show that the
value is of the wrong sort.
-/

namespace XmlMacros

/-- A value that is of the wrong sort where it is used. -/
inductive Mismatch
  /-- A verbosity that cannot be compared with a level. -/
  | verbosity (value : Datum)
  /-- A working path that cannot be put in front of a file name. -/
  | workingPath (value : Datum)
  /-- A declaration without a value, where a text is evaluated. -/
  | declaration
deriving Repr

/-- The wording of a mismatch. -/
def Mismatch.message : Mismatch → String
  | .verbosity value =>
    "'<' not supported between instances of '" ++ value.sortName ++ "' and 'int'"
  | .workingPath (.list _) => "can only concatenate list (not \"str\") to list"
  | .workingPath (.bytes _) => "can't concat str to bytes"
  | .workingPath value =>
    "unsupported operand type(s) for +: '" ++ value.sortName ++ "' and 'str'"
  | .declaration => "argument of type 'NoneType' is not iterable"

end XmlMacros
