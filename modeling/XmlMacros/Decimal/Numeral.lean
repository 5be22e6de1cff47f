import XmlMacros.Decimal.Binary64
import XmlMacros.Text.Digit

/-!
# Numerals

An unsigned number as it is written: digits, perhaps a point, perhaps an exponent. `scan?` reads
the longest numeral at the start of a text and `chars` is the text it was read from, so no
spelling is lost (`scan?_eq_some`). A numeral without point and exponent denotes an integer.
-/

namespace XmlMacros.Decimal

open XmlMacros.Text

/-- The exponent of a numeral: its mark, its sign if it has one, and its digits. -/
structure Exponent where
  mark : Char
  sign : Option Char
  digits : List Char
deriving DecidableEq, Repr

/-- The characters of an exponent. -/
def Exponent.chars (e : Exponent) : List Char :=
  e.mark :: e.sign.toList ++ e.digits

/-- The value of an exponent. -/
def Exponent.value (e : Exponent) : Int :=
  if e.sign == some '-' then -(natOfDigits e.digits : Int) else natOfDigits e.digits

/-- An unsigned number as it is written. `fraction` holds the digits after the point, if there is
a point. -/
structure Numeral where
  whole : List Char
  fraction : Option (List Char)
  exponent : Option Exponent
deriving DecidableEq, Repr

/-- The characters of a numeral. -/
def Numeral.chars (n : Numeral) : List Char :=
  n.whole ++ (n.fraction.map ('.' :: ·)).getD [] ++ (n.exponent.map Exponent.chars).getD []

/-- Whether the numeral denotes an integer: it has neither point nor exponent. -/
def Numeral.isInteger (n : Numeral) : Bool :=
  n.fraction.isNone && n.exponent.isNone

/-- The digits of a numeral before its exponent. -/
def Numeral.digits (n : Numeral) : List Char :=
  n.whole ++ n.fraction.getD []

/-- The number that a numeral denotes. -/
def Numeral.scaled (n : Numeral) : Scaled :=
  ⟨natOfDigits n.digits,
    (n.exponent.map Exponent.value).getD 0 - ((n.fraction.getD []).length : Int)⟩

/-- The sign at the start of a text, if it has one. -/
def scanSign : List Char → Option Char × List Char
  | '+' :: cs => (some '+', cs)
  | '-' :: cs => (some '-', cs)
  | cs => (none, cs)

/-- Reads an exponent at the start of a text. A mark without digits is none. -/
def Exponent.scan? : List Char → Option (Exponent × List Char)
  | [] => none
  | mark :: cs =>
    if mark == 'e' || mark == 'E' then
      let (sign, rest) := scanSign cs
      let digits := rest.takeWhile isDigit
      if digits.isEmpty then none else some (⟨mark, sign, digits⟩, rest.dropWhile isDigit)
    else none

/-- Reads the digits and the point at the start of a text. One side of the point has a digit. -/
def scanDigits? (cs : List Char) : Option (Numeral × List Char) :=
  let whole := cs.takeWhile isDigit
  match cs.dropWhile isDigit with
  | '.' :: rest =>
    let fraction := rest.takeWhile isDigit
    if whole.isEmpty && fraction.isEmpty then none
    else some (⟨whole, some fraction, none⟩, rest.dropWhile isDigit)
  | rest => if whole.isEmpty then none else some (⟨whole, none, none⟩, rest)

/-- Reads the longest numeral at the start of a text. -/
def Numeral.scan? (cs : List Char) : Option (Numeral × List Char) :=
  (scanDigits? cs).map fun (n, rest) =>
    match Exponent.scan? rest with
    | some (e, rest) => ({ n with exponent := some e }, rest)
    | none => (n, rest)

/-- A sign is taken from the front, if there is one. -/
theorem scanSign_eq (cs : List Char) : (scanSign cs).1.toList ++ (scanSign cs).2 = cs := by
  unfold scanSign; split <;> simp

/-- An exponent is what it was scanned from, character for character. -/
theorem Exponent.scan?_eq_some {cs rest : List Char} {e : Exponent}
    (h : Exponent.scan? cs = some (e, rest)) : cs = e.chars ++ rest := by
  unfold Exponent.scan? at h
  split at h
  · simp at h
  · rename_i mark tail
    have hsign := scanSign_eq tail
    split at h
    · dsimp only at h
      split at h
      · simp at h
      · simp only [Option.some.injEq, Prod.mk.injEq] at h
        obtain ⟨rfl, rfl⟩ := h
        simp [Exponent.chars, hsign]
    · simp at h

/-- So are digits, with a point in them or without, and there is at least one of them. -/
theorem scanDigits?_eq_some {cs rest : List Char} {n : Numeral}
    (h : scanDigits? cs = some (n, rest)) :
    cs = n.chars ++ rest ∧ n.exponent = none ∧ n.chars ≠ [] := by
  have hcs := List.takeWhile_append_dropWhile (p := isDigit) (l := cs)
  unfold scanDigits? at h
  dsimp only at h
  split at h
  · rename_i tail hd
    have htail := List.takeWhile_append_dropWhile (p := isDigit) (l := tail)
    split at h
    · simp at h
    · simp only [Option.some.injEq, Prod.mk.injEq] at h
      obtain ⟨rfl, rfl⟩ := h
      rw [hd] at hcs
      refine ⟨?_, rfl, by simp [Numeral.chars]⟩
      simp [Numeral.chars, htail, hcs]
  · split at h
    · simp at h
    · rename_i hne
      simp only [Option.some.injEq, Prod.mk.injEq] at h
      obtain ⟨rfl, rfl⟩ := h
      refine ⟨?_, rfl, ?_⟩
      · simp [Numeral.chars, hcs]
      · simpa [Numeral.chars] using hne

/-- A numeral is the start of the text it was read from, and it is not empty. -/
theorem Numeral.scan?_eq_some {cs rest : List Char} {n : Numeral}
    (h : Numeral.scan? cs = some (n, rest)) : cs = n.chars ++ rest ∧ n.chars ≠ [] := by
  unfold Numeral.scan? at h
  rw [Option.map_eq_some_iff] at h
  obtain ⟨⟨m, tail⟩, hm, h⟩ := h
  obtain ⟨hcs, hexp, hne⟩ := scanDigits?_eq_some hm
  dsimp only at h
  split at h
  · rename_i e tail' he
    have := Exponent.scan?_eq_some he
    simp only [Prod.mk.injEq] at h
    obtain ⟨rfl, rfl⟩ := h
    simp only [Numeral.chars, hexp] at hcs hne ⊢
    subst this
    refine ⟨by simpa using hcs, ?_⟩
    intro h0; simp at h0 hne; exact hne h0.1 h0.2.1
  · simp only [Prod.mk.injEq] at h
    obtain ⟨rfl, rfl⟩ := h
    exact ⟨hcs, hne⟩

/-- A text that is a number and nothing else: perhaps a minus sign, a numeral, and at most one
line feed after it. -/
def signedNumeral? (s : String) : Option (Bool × Numeral) :=
  let (negative, cs) := match s.toList with
    | '-' :: cs => (true, cs)
    | cs => (false, cs)
  match Numeral.scan? cs with
  | some (n, []) => some (negative, n)
  | some (n, ['\n']) => some (negative, n)
  | _ => none

end XmlMacros.Decimal
