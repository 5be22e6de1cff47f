import XmlMacros.Text.Case
import XmlMacros.Text.Quoted

/-!
# Texts with surrogates

Escapes can name the halves of surrogate pairs, and a half that stands alone is no character. A text
that may hold such halves is a list of glyphs. `Glyph.joined` puts halves that belong together into
the character they stand for.
-/

namespace XmlMacros.Text

/-- A character, or a half of a surrogate pair. -/
inductive Glyph
  | char (c : Char)
  | half (code : Nat)
deriving DecidableEq, Repr

namespace Glyph

/-- The glyph with a code, of which there are none beyond the last character. -/
def ofCode? (code : Nat) : Option Glyph :=
  if code.isValidChar then some (.char (Char.ofNat code))
  else if code < 0x110000 then some (.half code)
  else none

/-- A text as glyphs. -/
def ofChars (cs : List Char) : List Glyph :=
  cs.map .char

/-- The characters of a text that has no halves. -/
def chars? (text : List Glyph) : Option (List Char) :=
  text.mapM fun
    | .char c => some c
    | .half _ => none

/-- The characters of a text, with halves that belong together joined. A half that stands alone is
shown by the character for what cannot be shown. -/
def joined : List Glyph → List Char
  | [] => []
  | .char c :: rest => c :: joined rest
  | .half high :: .half low :: rest =>
    if high < 0xDC00 && 0xDC00 ≤ low then
      Char.ofNat (0x10000 + (high - 0xD800) * 0x400 + (low - 0xDC00)) :: joined rest
    else Char.ofNat 0xFFFD :: joined (.half low :: rest)
  | .half _ :: rest => Char.ofNat 0xFFFD :: joined rest

/-- A text in lower case. -/
def lower (text : List Glyph) : List Glyph :=
  match chars? text with
  | some cs => ofChars (Text.lower cs)
  | none => text.flatMap fun
    | .char c => ofChars (Text.lower [c])
    | .half code => [.half code]

/-- One glyph of a quoted text. -/
def escape (quote : Char) : Glyph → String
  | .char c => escapeChar quote c
  | .half code => "\\u" ++ hexDigits 4 code

/-- The text between quotes, with escapes. -/
def quoted (text : List Glyph) : String :=
  let quote := quoteFor (String.ofList (joined text))
  String.ofList [quote] ++ String.join (text.map (escape quote)) ++ String.ofList [quote]

/-- A character in front of glyphs stands in front of their characters. -/
theorem chars?_char_cons (c : Char) (rest : List Glyph) :
    chars? (.char c :: rest) = (chars? rest).map (c :: ·) := by
  rw [chars?, List.mapM_cons, ← chars?]
  cases chars? rest <;> rfl

/-- Two halves are joined to a character behind all that have codes of their own, and a half that
stands alone is shown by the character for what cannot be shown. -/
theorem exists_mem_joined {text : List Glyph} (h : chars? text = none) :
    ∃ n, 0xFFFD ≤ n ∧ Char.ofNat n ∈ joined text := by
  induction text using joined.induct with
  | case1 => cases h
  | case2 c rest ih =>
    rw [chars?_char_cons, Option.map_eq_none_iff] at h
    obtain ⟨n, hn, hmem⟩ := ih h
    exact ⟨n, hn, List.mem_cons_of_mem _ hmem⟩
  | case3 high low rest hpair ih =>
    refine ⟨_, ?_, by rw [joined, if_pos hpair]; exact List.mem_cons_self⟩
    omega
  | case4 high low rest hpair ih =>
    exact ⟨0xFFFD, Nat.le_refl _, by rw [joined, if_neg hpair]; exact List.mem_cons_self⟩
  | case5 code rest hrest ih =>
    exact ⟨0xFFFD, Nat.le_refl _, by rw [joined]; exact List.mem_cons_self; exact hrest⟩

end Glyph

/-- A text in which a half of a surrogate pair stands, so that it is none of characters alone. -/
structure HalvedText where
  glyphs : List Glyph
  chars?_glyphs : Glyph.chars? glyphs = none
deriving DecidableEq, Repr

end XmlMacros.Text
