/-!
# Why a YAML text cannot be read

A text that is no YAML is malformed. A text that is may still have nodes that stand for no value.
-/

namespace XmlMacros.Yaml

/-- Why a text does not stand for a value. -/
inductive ReadError
  | malformed
  /-- A scalar that is not of the sort that it looks like or that its tag names, in words. -/
  | unfit (text : String)
  /-- A number that is too large for its sort, in words. -/
  | tooLarge (text : String)
  /-- A scalar whose tag names truth values, and that is none. -/
  | noTruthValue
  /-- A scalar whose tag names timestamps, and that is none. -/
  | noTimestamp
  /-- A node whose tag names timestamps, and that is no scalar. -/
  | noScalar
  /-- A scalar whose tag names numbers, and that has no digits. -/
  | noDigits
  /-- Nodes that are nested too deeply, or a text that is looked for in itself. -/
  | endless
deriving DecidableEq, Repr

end XmlMacros.Yaml
