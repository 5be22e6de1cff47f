import XmlMacros.Decimal.Binary64

/-!
# The shortest decimal of a double

A double stands for an interval of reals: those that round to it. `shortest` finds the fewest
digits with which some decimal lies in that interval, and of the decimals with that many digits
the one nearest to the double. `Layout` then says where digits, point and exponent are written.
-/

namespace XmlMacros.Decimal

/-- Three ratios over one denominator: a number between the two ends of the interval of reals that
round to it. -/
structure Interval where
  low : Nat
  value : Nat
  high : Nat
  denominator : Nat
  /-- Whether the ends themselves belong to the interval. -/
  closed : Bool

/-- The interval of reals that round to `mantissa · 2 ^ exponent`. Its ends lie half-way to the
neighbours; the lower neighbour of a power of two is only half as far away. -/
def intervalOf (mantissa : Nat) (exponent : Int) : Interval :=
  let below := if mantissa == pow2 52 && leastExponent < exponent then 1 else 2
  let closed := mantissa % 2 == 0
  match exponent - 2 with
  | .ofNat k =>
    ⟨(4 * mantissa - below) <<< k, (4 * mantissa) <<< k, (4 * mantissa + 2) <<< k, 1, closed⟩
  | .negSucc k =>
    ⟨4 * mantissa - below, 4 * mantissa, 4 * mantissa + 2, 1 <<< (k + 1), closed⟩

/-- Whether the decimal `c · 10 ^ s` lies in the interval. -/
def Interval.contains (i : Interval) (c : Nat) (s : Int) : Bool :=
  let (x, scale) : Nat × Nat := match s with
    | .ofNat k => (c * pow10 k * i.denominator, 1)
    | .negSucc k => (c * i.denominator, pow10 (k + 1))
  if i.closed then i.low * scale ≤ x && x ≤ i.high * scale
  else i.low * scale < x && x < i.high * scale

/-- The value divided by `10 ^ s`, as a numerator and a denominator. -/
def Interval.inUnits (i : Interval) (s : Int) : Nat × Nat :=
  match s with
  | .ofNat k => (i.value, i.denominator * pow10 k)
  | .negSucc k => (i.value * pow10 (k + 1), i.denominator)

/-- The exponent of the leading decimal digit of the value. -/
def Interval.leadingExponent (i : Interval) : Int :=
  let guess : Int := (digitCount i.value : Int) - digitCount i.denominator
  let (num, den) := i.inUnits guess
  if den ≤ num then guess else guess - 1

/-- The nearest multiple of `10 ^ s` to the value that lies in the interval, if one of the two
multiples beside the value does. -/
def Interval.onGrid? (i : Interval) (s : Int) : Option Nat :=
  let (num, den) := i.inUnits s
  let below := num / den
  let above := below + 1
  let twice := 2 * (num % den)
  let lowerFirst := twice < den || (twice == den && below % 2 == 0)
  match i.contains below s, i.contains above s with
  | true, true => some (if lowerFirst then below else above)
  | true, false => some below
  | false, true => some above
  | false, false => none

/-- Tries grids of more and more digits, at most `fuel` of them, from `digits` digits on. -/
def Interval.search (i : Interval) (leading : Int) : Nat → Nat → Scaled
  | 0, digits =>
    let s := leading - digits + 1
    let (num, den) := i.inUnits s
    ⟨num / den, s⟩
  | fuel + 1, digits =>
    let s := leading - digits + 1
    match i.onGrid? s with
    | some c => ⟨c, s⟩
    | none => i.search leading fuel (digits + 1)

/-- The decimal with the fewest digits that rounds to `mantissa · 2 ^ exponent`, for a positive
mantissa. Seventeen digits always suffice. -/
def shortest (mantissa : Nat) (exponent : Int) : Scaled :=
  let i := intervalOf mantissa exponent
  i.search i.leadingExponent 17 1

/-- How a decimal is written: with an exponent unless that of its leading digit is at least
`positionalFrom` and below `positionalBelow`; the exponent has at least `exponentWidth` digits. -/
structure Layout where
  positionalFrom : Int
  positionalBelow : Int
  exponentWidth : Nat

/-- Pads the digits of a natural number with zeros on the left. -/
def padded (width n : Nat) : String :=
  let digits := Nat.toDigits 10 n
  String.ofList (List.replicate (width - digits.length) '0' ++ digits)

/-- The digits of a number without the zeros at its end. -/
def significantDigits (n : Nat) : List Char :=
  ((Nat.toDigits 10 n).reverse.dropWhile (· == '0')).reverse

/-- Writes a positive decimal. Positional text has a digit on both sides of its point. -/
def Layout.write (layout : Layout) (d : Scaled) : String :=
  let digits := significantDigits d.mantissa
  let leading := (digitCount d.mantissa : Int) - 1 + d.exponent
  if layout.positionalFrom ≤ leading && leading < layout.positionalBelow then
    match leading with
    | .negSucc k => "0." ++ String.ofList (List.replicate k '0' ++ digits)
    | .ofNat k =>
      let fraction := digits.drop (k + 1)
      String.ofList (digits.take (k + 1) ++ List.replicate (k + 1 - digits.length) '0') ++ "."
        ++ (if fraction.isEmpty then "0" else String.ofList fraction)
  else
    let fraction := digits.drop 1
    let point := if fraction.isEmpty then "" else "." ++ String.ofList fraction
    let sign := if leading < 0 then "-" else "+"
    String.ofList (digits.take 1) ++ point ++ "e" ++ sign
      ++ padded layout.exponentWidth leading.natAbs

/-- Writes a double with the fewest digits that read back as it. -/
def Layout.writeFloat (layout : Layout) (x : Float) : String :=
  match decode x with
  | .undefined => "nan"
  | .infinite negative => if negative then "-inf" else "inf"
  | .finite d =>
    let sign := if d.negative then "-" else ""
    if d.mantissa == 0 then sign ++ "0.0"
    else sign ++ layout.write (shortest d.mantissa d.exponent)

end XmlMacros.Decimal
