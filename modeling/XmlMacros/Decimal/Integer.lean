import XmlMacros.Decimal.Numeral
import XmlMacros.Fault
import XmlMacros.Text.Blank

/-!
# Integers to a base

A text denotes an integer to a base if it has digits, perhaps with single underscores between them,
perhaps after a sign and the mark of the base, perhaps with white space around. Digits may be of any
script. A decimal numeral must not be too long.
-/

namespace XmlMacros.Decimal

open XmlMacros.Text

/-- Why a text denotes no integer. -/
inductive IntegerFault
  | notANumeral
  | tooLong (digits : Nat)
deriving DecidableEq, Repr

/-- Whether a character may stand around a numeral: white space that does not separate records. -/
def isPadding (c : Char) : Bool :=
  isBlank c && !(0x1C ≤ c.toNat && c.toNat ≤ 0x1F)

/-- The value of a digit to a base up to sixteen. -/
def digitInBase? (base : Nat) (c : Char) : Option Nat :=
  ((digitValue? c).or (hexValue? c)).filter (· < base)

/-- The mark that may stand in front of the digits to a base. -/
def baseMark : Nat → Option Char
  | 2 => some 'b'
  | 8 => some 'o'
  | 16 => some 'x'
  | _ => none

/-- The digits without the mark of their base. An underscore may follow the mark. -/
def dropBaseMark (base : Nat) (cs : List Char) : List Char :=
  match cs with
  | '0' :: mark :: rest =>
    if some mark.toLower == baseMark base then
      match rest with
      | '_' :: rest => rest
      | rest => rest
    else cs
  | cs => cs

/-- The digits of an integer without the underscores between them. -/
def joinDigits? : List Char → Option (List Char)
  | [] => none
  | [c] => if c == '_' then none else some [c]
  | c :: '_' :: rest => if c == '_' then none else (joinDigits? rest).map (c :: ·)
  | c :: rest => if c == '_' then none else (joinDigits? rest).map (c :: ·)

/-- The integer that a text denotes to a base. -/
def readInteger (base : Nat) (cs : List Char) : Except IntegerFault Int :=
  let (sign, cs) := scanSign (cs.dropWhile isPadding)
  let goesOn (c : Char) : Bool := c == '_' || (digitInBase? base c).isSome
  let cs := dropBaseMark base cs
  match joinDigits? (cs.takeWhile goesOn) with
  | none => .error .notANumeral
  | some digits =>
    if base == 10 && digitLimit < digits.length then .error (.tooLong digits.length)
    else if !(cs.dropWhile goesOn).all isPadding then .error .notANumeral
    else
      let size := digits.foldl (fun n c => base * n + (digitInBase? base c).getD 0) 0
      .ok (if sign == some '-' then -(size : Int) else size)

end XmlMacros.Decimal
