/-!
# Double precision numbers, exactly

A finite double is a signed multiple of a power of two. `decode` shows a `Float` as such a
multiple and `nearest?` is the way back: the double nearest to a ratio of two natural numbers,
where a tie goes to the even multiple. Reading decimals, converting integers, dividing integers
and taking remainders all come down to `nearest?`, so each is rounded once.
-/

namespace XmlMacros.Decimal

/-- A power of two. -/
def pow2 (k : Nat) : Nat := Nat.pow 2 k

/-- A power of ten. -/
def pow10 (k : Nat) : Nat := Nat.pow 10 k

/-- The number `± mantissa · 2 ^ exponent`. -/
structure Dyadic where
  negative : Bool
  mantissa : Nat
  exponent : Int
deriving DecidableEq, Repr

/-- What the bits of a double say. -/
inductive Decoded
  | finite (value : Dyadic)
  | infinite (negative : Bool)
  | undefined
deriving DecidableEq, Repr

/-- The number of bits of a mantissa, the leading one included. -/
def precision : Nat := 53

/-- The exponent of the finest doubles. -/
def leastExponent : Int := -1074

/-- Reads the bits of a double. -/
def decodeBits (bits : UInt64) : Decoded :=
  let n := bits.toNat
  let negative : Bool := pow2 63 ≤ n
  let field : Nat := n / pow2 52 % pow2 11
  let fraction : Nat := n % pow2 52
  if field == 2047 then
    if fraction == 0 then .infinite negative else .undefined
  else if field == 0 then .finite ⟨negative, fraction, leastExponent⟩
  else .finite ⟨negative, pow2 52 + fraction, Int.ofNat field - 1075⟩

/-- Shows a double as a multiple of a power of two. -/
def decode (x : Float) : Decoded :=
  decodeBits x.toBits

/-- `num / den` rounded to a natural number; a tie goes to the even one. -/
def roundHalfEven (num den : Nat) : Nat :=
  let q := num / den
  let twice := 2 * (num % den)
  if twice < den then q
  else if den < twice then q + 1
  else q + q % 2

/-- `num / den` divided by `2 ^ e`, as a numerator and a denominator. -/
def scaleDown (num den : Nat) (e : Int) : Nat × Nat :=
  match e with
  | .ofNat k => (num, den <<< k)
  | .negSucc k => (num <<< (k + 1), den)

/-- The exponent at which `num / den` has a mantissa of full precision, not below the least. -/
def mantissaExponent (num den : Nat) : Int :=
  let guess : Int := (num.log2 : Int) - (den.log2 : Int) - (precision - 1)
  let scaled := scaleDown num den guess
  let e := if scaled.1 < scaled.2 <<< (precision - 1) then guess - 1 else guess
  if e < leastExponent then leastExponent else e

/-- The bits of the nonnegative double `mantissa · 2 ^ exponent`, if it is one. -/
def encodeBits? (mantissa : Nat) (exponent : Int) : Option UInt64 :=
  let (m, e) := if mantissa == pow2 53 then (pow2 52, exponent + 1) else (mantissa, exponent)
  if m < pow2 52 then some (UInt64.ofNat m)
  else
    let field := e + 1075
    if field < 2047 then some (UInt64.ofNat (field.toNat * pow2 52 + (m - pow2 52))) else none

/-- The nonnegative double nearest to `num / den`, and `none` if that lies beyond the largest. -/
def nearest? (num den : Nat) : Option Float :=
  if num == 0 then some (Float.ofBits 0)
  else
    let e := mantissaExponent num den
    let scaled := scaleDown num den e
    (encodeBits? (roundHalfEven scaled.1 scaled.2) e).map Float.ofBits

/-- The double with the sign given. -/
def withSign (negative : Bool) (x : Float) : Float :=
  if negative then -x else x

/-- Positive infinity. -/
def infinity : Float := Float.ofBits 0x7FF0000000000000

/-- The number that is not one. -/
def undefinedNumber : Float := Float.ofBits 0x7FF8000000000000

/-- The double nearest to an integer, and `none` if that lies beyond the largest. -/
def ofInt? (n : Int) : Option Float :=
  (nearest? n.natAbs 1).map (withSign (n < 0))

/-- The number of decimal digits of a natural number. -/
def digitCount (n : Nat) : Nat :=
  (Nat.toDigits 10 n).length

/-- A natural number with a power of ten: `mantissa · 10 ^ exponent`. -/
structure Scaled where
  mantissa : Nat
  exponent : Int
deriving DecidableEq, Repr

/-- The double nearest to a decimal. What lies beyond the largest double is infinite. The two
bounds on the size only save work: the exponents of doubles lie well inside them. -/
def Scaled.toFloat (d : Scaled) : Float :=
  let size := (digitCount d.mantissa : Int) + d.exponent
  if d.mantissa == 0 then Float.ofBits 0
  else if size < -400 then Float.ofBits 0
  else if 400 < size then infinity
  else
    match d.exponent with
    | .ofNat k => (nearest? (d.mantissa * pow10 k) 1).getD infinity
    | .negSucc k => (nearest? d.mantissa (pow10 (k + 1))).getD infinity

/-- Whether the double nearest to a decimal is zero: the decimal is at most half of the least
positive double. -/
def Scaled.vanishes (d : Scaled) : Bool :=
  match d.exponent with
  | .ofNat _ => d.mantissa == 0
  | .negSucc k =>
    d.mantissa == 0 || digitCount d.mantissa + 400 < k + 1
      || d.mantissa * pow2 1075 ≤ pow10 (k + 1)

/-- The integer part of a dyadic number: digits after the point are dropped. -/
def Dyadic.truncate (d : Dyadic) : Int :=
  let size : Nat := match d.exponent with
    | .ofNat k => d.mantissa <<< k
    | .negSucc k => d.mantissa >>> (k + 1)
  if d.negative then -(size : Int) else size

/-- Whether a dyadic number is an integer. -/
def Dyadic.isInteger (d : Dyadic) : Bool :=
  match d.exponent with
  | .ofNat _ => true
  | .negSucc k => d.mantissa % pow2 (k + 1) == 0

/-- Whether a double equals an integer. -/
def equalsInt (x : Float) (n : Int) : Bool :=
  match decode x with
  | .finite d => d.isInteger && d.truncate == n
  | _ => false

/-- The remainder of two finite numbers after a quotient without digits after the point; it has
the sign of the dividend. The divisor is not zero. -/
def Dyadic.remainder (a b : Dyadic) : Float :=
  let e := min a.exponent b.exponent
  let m := (a.mantissa <<< (a.exponent - e).toNat) % (b.mantissa <<< (b.exponent - e).toNat)
  let size := match e with
    | .ofNat k => nearest? (m <<< k) 1
    | .negSucc k => nearest? m (1 <<< (k + 1))
  withSign a.negative (size.getD infinity)

end XmlMacros.Decimal
