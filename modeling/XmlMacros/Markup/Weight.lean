import XmlMacros.Markup.Doctype

/-!
# How much entities expand to

An entity whose replacement refers to others can stand for a text that is far longer than the
document. The weight of an entity is the number of bytes that are read when it is replaced, the
replacements inside of it included. A document is refused if what is read is both long and far
longer than what is written (`isExcessive`).
-/

namespace XmlMacros.Markup

/-- The names of the entities that a text refers to, in order. The first argument bounds the number
of characters. -/
def referencesIn : Nat → List Char → List String
  | 0, _ => []
  | _, [] => []
  | fuel + 1, c :: cs =>
    if c != '&' then referencesIn fuel cs
    else
      match Reference.scan? cs with
      | some (.entity name, rest) => name :: referencesIn fuel rest
      | _ => referencesIn fuel cs

/-- The length from which on a document may be excessive. -/
def excessThreshold : Nat := 8388608

/-- How many times longer than the document what is read may be. -/
def excessFactor : Nat := 100

/-- Whether a document of `written` bytes whose entities expand to `expanded` bytes is refused. -/
def isExcessive (written expanded : Nat) : Bool :=
  excessThreshold ≤ written + expanded && excessFactor * written < written + expanded

namespace Doctype

/-- The weights of the texts of entities if references in them have given weights. None is more than
the threshold. -/
def reweigh (texts : List (String × Nat × List String)) (weights : List (String × Nat)) :
    List (String × Nat) :=
  texts.map fun (name, size, names) =>
    (name, min excessThreshold
      (names.foldl (fun total name => total + (weights.lookup name).getD 0) size))

/-- The weights of texts after weighing them again until nothing changes. The first argument bounds
how often. -/
def settleWeights (texts : List (String × Nat × List String)) :
    Nat → List (String × Nat) → List (String × Nat)
  | 0, weights => weights
  | fuel + 1, weights =>
    let next := reweigh texts weights
    if next == weights then weights else settleWeights texts fuel next

/-- The weights of all entities. They are settled once every chain of references has been followed
to its end. -/
def weights (d : Doctype) : List (String × Nat) :=
  let texts := d.entities.filterMap fun (name, value) =>
    match value with
    | .internal text =>
      some (name, text.utf8ByteSize, referencesIn text.length text.toList)
    | _ => none
  settleWeights texts (texts.length + 1) []

end Doctype

/-- The weight of references. -/
def weightOf (weights : List (String × Nat)) (names : List String) : Nat :=
  names.foldl (fun total name => total + (weights.lookup name).getD 0) 0

end XmlMacros.Markup
