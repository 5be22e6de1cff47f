/-!
# Bytes written with letters

Four letters out of sixty-four stand for three bytes. Characters outside of the alphabet are passed
over. Two or three letters may be made up to four by marks, and whatever follows the marks is
ignored.
-/

namespace XmlMacros.Text.Base64

/-- The value of a letter. -/
def value? (c : Char) : Option Nat :=
  if 'A' ≤ c && c ≤ 'Z' then some (c.toNat - 'A'.toNat)
  else if 'a' ≤ c && c ≤ 'z' then some (c.toNat - 'a'.toNat + 26)
  else if '0' ≤ c && c ≤ '9' then some (c.toNat - '0'.toNat + 52)
  else if c == '+' then some 62
  else if c == '/' then some 63
  else none

/-- The bytes that the letters of a group complete: one fewer than there are letters. -/
def groupBytes : List Nat → List UInt8
  | a :: b :: rest => UInt8.ofNat (a * 4 + b / 16) :: match rest with
    | c :: rest => UInt8.ofNat (b % 16 * 16 + c / 4) :: match rest with
      | d :: _ => [UInt8.ofNat (c % 4 * 64 + d)]
      | [] => []
    | [] => []
  | _ => []

/-- Reads bytes. `group` holds the letters of the group that is not complete, `marks` counts the
marks after the last of them. A text that ends inside of a group is refused. -/
def decodeFrom? : List Nat → Nat → List Char → Option (List UInt8)
  | group, _, [] => if group.isEmpty then some [] else none
  | group, marks, c :: cs =>
    if c == '=' then
      if group.length < 2 then decodeFrom? group marks cs
      else if group.length + marks + 1 < 4 then decodeFrom? group (marks + 1) cs
      else some (groupBytes group)
    else
      match value? c with
      | none => decodeFrom? group marks cs
      | some v =>
        if group.length == 3 then
          (decodeFrom? [] 0 cs).map (groupBytes (group ++ [v]) ++ ·)
        else decodeFrom? (group ++ [v]) 0 cs

/-- The bytes that a text stands for. -/
def decode? (cs : List Char) : Option (List UInt8) :=
  decodeFrom? [] 0 cs

end XmlMacros.Text.Base64
