import XmlMacros.Decimal.Integer
import XmlMacros.Text.Glyph
import XmlMacros.Text.Path
import XmlMacros.Yaml.Error

/-!
# Numbers of scalars

What a scalar denotes whose tag names integers or doubles. Underscores have no meaning. A number may
be given to base sixty, with colons between its steps. White space around a numeral is passed over,
and digits may be of any script.
-/

namespace XmlMacros.Yaml

open XmlMacros.Decimal XmlMacros.Text

/-- The text without underscores. -/
def withoutUnderscores (text : List Glyph) : List Glyph :=
  text.filter (· != .char '_')

/-- Whether a text has a minus sign in front. -/
def isNegative (text : List Glyph) : Bool :=
  text.head? == some (.char '-')

/-- The text without a sign in front. -/
def afterSignMark : List Glyph → List Glyph
  | .char '+' :: rest => rest
  | .char '-' :: rest => rest
  | text => text

/-- The pieces of a text between colons. -/
def sixtieths (text : List Glyph) : List (List Glyph) :=
  splitAtP (· == .char ':') text

/-! ## Integers -/

/-- Why a text is no integer. Only the start of a long text is shown. -/
def noInteger (base : Nat) (text : List Glyph) : ReadError :=
  .unfit ("invalid literal for int() with base " ++ toString base ++ ": "
    ++ String.ofList ((Glyph.quoted text).toList.take 200))

/-- The integer that a numeral to a base denotes. -/
def integerInBase (base : Nat) (text : List Glyph) : Except ReadError Int :=
  match (Glyph.chars? text).map (readInteger base) with
  | some (.ok n) => .ok n
  | some (.error (.tooLong digits)) =>
    .error (.unfit (Arithmetic.message (.numeralTooLong digits)))
  | _ => .error (noInteger base text)

/-- The integer that a scalar denotes. -/
def integerOf (text : List Glyph) : Except ReadError Int :=
  let text := withoutUnderscores text
  let signed (n : Int) : Int := if isNegative text then -n else n
  match afterSignMark text with
  | [] => .error .noDigits
  | [.char '0'] => .ok 0
  | .char '0' :: .char 'b' :: digits => signed <$> integerInBase 2 digits
  | .char '0' :: .char 'x' :: digits => signed <$> integerInBase 16 digits
  | .char '0' :: rest => signed <$> integerInBase 8 (.char '0' :: rest)
  | digits => do
    let parts ← (sixtieths digits).mapM (integerInBase 10)
    return signed (parts.foldl (fun n d => n * 60 + d) 0)

/-! ## Doubles -/

/-- The text without padding at its two ends. -/
def withoutPadding (cs : List Char) : List Char :=
  ((cs.dropWhile isPadding).reverse.dropWhile isPadding).reverse

/-- The double that a numeral or the name of a double denotes. -/
def doubleOfChars? (cs : List Char) : Option Float :=
  let (sign, cs) := scanSign (withoutPadding cs)
  let signed (x : Float) : Float := withSign (sign == some '-') x
  match String.ofList cs with
  | "inf" | "infinity" => some (signed infinity)
  | "nan" => some undefinedNumber
  | _ =>
    match Numeral.scan? cs with
    | some (n, []) => some (signed n.scaled.toFloat)
    | _ => none

/-- The double that a text in lower case denotes. -/
def doubleOfText (text : List Glyph) : Except ReadError Float :=
  match (Glyph.chars? text).bind doubleOfChars? with
  | some x => .ok x
  | none => .error (.unfit ("could not convert string to float: " ++ Glyph.quoted text))

/-- The sum of the steps of a number to base sixty, the last step first. The power of sixty that a
step counts is rounded to a double. -/
def sumOfSteps : Nat → Float → List Float → Except ReadError Float
  | _, sum, [] => .ok sum
  | power, sum, x :: rest =>
    match ofInt? power with
    | none => .error (.tooLarge (Arithmetic.message .integerTooLarge))
    | some p => sumOfSteps (power * 60) (sum + x * p) rest

/-- Whether a scalar is the name of the undefined double. -/
def namesUndefined (text : List Glyph) : Bool :=
  afterSignMark (Glyph.lower (withoutUnderscores text)) == Glyph.ofChars ".nan".toList

/-- The double that a scalar denotes. -/
def doubleOf (text : List Glyph) : Except ReadError Float := do
  let text := Glyph.lower (withoutUnderscores text)
  if text.isEmpty then throw .noDigits
  let signed (x : Float) : Float := withSign (isNegative text) x
  let digits := afterSignMark text
  if digits == Glyph.ofChars ".inf".toList then return signed infinity
  if digits == Glyph.ofChars ".nan".toList then return undefinedNumber
  match sixtieths digits with
  | [only] => return signed (← doubleOfText only)
  | parts =>
    let steps ← parts.mapM doubleOfText
    return signed (← sumOfSteps 1 0 steps.reverse)

end XmlMacros.Yaml
