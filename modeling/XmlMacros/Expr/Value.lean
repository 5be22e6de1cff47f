import XmlMacros.Decimal.Numeral
import XmlMacros.Decimal.Shortest
import XmlMacros.Fault

/-!
# Values of expressions

Expressions compute with truth values, integers of any size, doubles and texts. A text that is a
number counts as that number wherever a number is asked for. The operations below fail with a
`Cause`; that is all they can do besides computing a value.
-/

namespace XmlMacros.Expr

open XmlMacros.Decimal

/-- An integer of any size, or a double. -/
inductive Number
  | int (n : Int)
  | float (x : Float)
deriving Repr

/-- The value of an expression. -/
inductive Value
  | bool (b : Bool)
  | number (x : Number)
  | text (s : String)
deriving Repr

instance : Inhabited Value := ⟨.text ""⟩

/-- Doubles are written with the fewest digits that read back; positionally from `0.0001` on and
below `10 ^ 16`, otherwise with an exponent of at least two digits. -/
def floatLayout : Layout := ⟨-4, 16, 2⟩

/-! ## Reading and writing numbers -/

/-- Whether a text is a number. -/
def isNumber (s : String) : Bool :=
  (signedNumeral? s).isSome

/-- The number that a numeral denotes. A numeral with a point or an exponent denotes a double,
any other an integer; of an integer only so many digits are read. -/
def numberOfNumeral (negative : Bool) (n : Numeral) : Except Cause Number :=
  if n.isInteger then
    if digitLimit < n.digits.length then .error (.arithmetic (.numeralTooLong n.digits.length))
    else
      let size : Int := Text.natOfDigits n.digits
      .ok (.int (if negative then -size else size))
  else .ok (.float (withSign negative n.scaled.toFloat))

/-- The number that a text denotes, if it is a number. -/
def number? (s : String) : Option (Except Cause Number) :=
  (signedNumeral? s).map fun (negative, n) => numberOfNumeral negative n

/-- The text of an integer. Only so many digits are written. -/
def writeInt (n : Int) : Except Cause String :=
  let text := toString n.natAbs
  if digitLimit < text.length then .error (.arithmetic .integerTooLong)
  else .ok (if n < 0 then "-" ++ text else text)

/-- The text of a double: that of an integer if it is one and not too large. -/
def writeFloat (x : Float) : String :=
  match decode x with
  | .finite d =>
    if d.isInteger && d.truncate.natAbs < pow10 21 then toString d.truncate
    else floatLayout.writeFloat x
  | _ => floatLayout.writeFloat x

/-- The text of a value. -/
def Value.write : Value → Except Cause String
  | .bool b => .ok (if b then "true" else "false")
  | .number (.int n) => writeInt n
  | .number (.float x) => .ok (writeFloat x)
  | .text s => .ok s

/-! ## Conversions -/

/-- The value as a number. Truth values count as one and zero. -/
def Value.toNumber : Value → Except Cause Number
  | .bool b => .ok (.int (if b then 1 else 0))
  | .number x => .ok x
  | .text s => (number? s).getD (.error (.notANumber s))

/-- The number as a double; an integer is rounded to the nearest one. -/
def Number.toFloat : Number → Except Cause Float
  | .float x => .ok x
  | .int n =>
    match ofInt? n with
    | some x => .ok x
    | none => .error (.arithmetic .integerTooLarge)

/-- The number as an integer: digits after the point are dropped. -/
def Number.toInt : Number → Except Cause Int
  | .int n => .ok n
  | .float x =>
    match decode x with
    | .finite d => .ok d.truncate
    | .infinite _ => .error (.arithmetic .infinityToInteger)
    | .undefined => .error (.arithmetic .undefinedToInteger)

/-! ## Arithmetic -/

/-- Computes with integers if both numbers are integers, and with doubles otherwise. -/
def Number.combine (exact : Int → Int → Int) (rounded : Float → Float → Float) (a b : Number) :
    Except Cause Number := do
  match a, b with
  | .int m, .int n => return .int (exact m n)
  | _, _ =>
    let x ← a.toFloat
    let y ← b.toFloat
    return .float (rounded x y)

/-- The number with the other sign. -/
def Number.negate : Number → Number
  | .int n => .int (-n)
  | .float x => .float (-x)

/-- Whether a number is zero. -/
def Number.isZero : Number → Bool
  | .int n => n == 0
  | .float x => equalsInt x 0

/-- Whether two numbers are equal. An integer and a double are compared exactly. -/
def Number.equals : Number → Number → Bool
  | .int m, .int n => m == n
  | .int m, .float y => equalsInt y m
  | .float x, .int n => equalsInt x n
  | .float x, .float y => x == y

/-- The quotient. That of two integers is the double nearest to it. -/
def Number.divide (a b : Number) : Except Cause Number :=
  if b.isZero then .error .divisionByZero
  else
    match a, b with
    | .int m, .int n =>
      match nearest? m.natAbs n.natAbs with
      | some x => .ok (.float (withSign ((m < 0) != (n < 0)) x))
      | none => .error (.arithmetic .quotientTooLarge)
    | _, _ => do
      let x ← a.toFloat
      let y ← b.toFloat
      return .float (x / y)

/-- The remainder of two doubles; it has the sign of the dividend. -/
def floatRemainder (x y : Float) : Except Cause Float :=
  match decode x, decode y with
  | .undefined, _ | _, .undefined => .ok undefinedNumber
  | .infinite _, _ => .error (.arithmetic .domain)
  | .finite _, .infinite _ => .ok x
  | .finite a, .finite b => .ok (a.remainder b)

/-- The remainder after division; it has the sign of the dividend. -/
def Number.remainder (a b : Number) : Except Cause Number :=
  if b.isZero then .error .divisionByZero
  else
    match a, b with
    | .int m, .int n => .ok (.int (m.tmod n))
    | _, _ => do
      let x ← a.toFloat
      let y ← b.toFloat
      return .float (← floatRemainder x y)

/-- The bits that two integers have in common, in two's complement without an end. -/
def bitAnd : Int → Int → Int
  | .ofNat m, .ofNat n => .ofNat (m &&& n)
  | .ofNat m, .negSucc n => .ofNat (m - (m &&& n))
  | .negSucc m, .ofNat n => .ofNat (n - (n &&& m))
  | .negSucc m, .negSucc n => .negSucc (m ||| n)

/-- The bits that at least one of two integers has, in two's complement without an end. -/
def bitOr : Int → Int → Int
  | .ofNat m, .ofNat n => .ofNat (m ||| n)
  | .ofNat m, .negSucc n => .negSucc (n - (n &&& m))
  | .negSucc m, .ofNat n => .negSucc (m - (m &&& n))
  | .negSucc m, .negSucc n => .negSucc (m &&& n)

/-- Whether a value counts as a number in a comparison. -/
def Value.isNumeric : Value → Bool
  | .text s => isNumber s
  | _ => true

/-- Whether two values are equal: as numbers if both are, and otherwise as texts. -/
def Value.equals (a b : Value) : Except Cause Bool :=
  if a.isNumeric && b.isNumeric then do
    let x ← a.toNumber
    let y ← b.toNumber
    return x.equals y
  else do
    let s ← a.write
    let t ← b.write
    return s == t

/-- Whether a value is a text. -/
def Value.isText : Value → Bool
  | .text _ => true
  | _ => false

/-- The sum of two numbers, or two texts joined if one of the values is a text. -/
def Value.add (a b : Value) : Except Cause Value :=
  if a.isText || b.isText then do
    let s ← a.write
    let t ← b.write
    return .text (s ++ t)
  else do
    let x ← a.toNumber
    let y ← b.toNumber
    return .number (← x.combine (· + ·) (· + ·) y)

end XmlMacros.Expr
