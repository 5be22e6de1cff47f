import XmlMacros.Decimal.Numeral
import XmlMacros.Text.Blank
import Mathlib.Data.List.TakeWhile

/-!
# Which numerals are read

`Numeral.scan?` takes the longest numeral that fits. Told without it: a numeral that can be written
(`Numeral.WellFormed`) is read back from its characters wherever the text behind it does not go on
with it (`Numeral.EndsBefore`, and `Numeral.scan?_append` for what suffices), and nothing else is
ever read as a numeral (`Numeral.scan?_eq_some_iff`).
-/

namespace XmlMacros

open Text

/-! ## Runs of characters -/

section
variable {p : Char → Bool} {run rest : List Char}

/-- Characters of a kind are taken as a whole up to one that is not of it. -/
theorem Text.takeWhile_append_of_boundary (hrun : ∀ c ∈ run, p c = true)
    (hrest : ∀ c ∈ rest.head?, p c = false) : (run ++ rest).takeWhile p = run := by
  rw [List.takeWhile_append_of_pos hrun]
  cases rest with
  | nil => simp
  | cons c rest => simp [hrest c rfl]

theorem Text.dropWhile_append_of_boundary (hrun : ∀ c ∈ run, p c = true)
    (hrest : ∀ c ∈ rest.head?, p c = false) : (run ++ rest).dropWhile p = rest := by
  rw [List.dropWhile_append_of_pos hrun]
  cases rest with
  | nil => rfl
  | cons c rest => simp [hrest c rfl]

/-- A run ends at a character that is not one of it. -/
theorem Text.head_dropWhile (p : Char → Bool) (cs : List Char) :
    ∀ c ∈ (cs.dropWhile p).head?, p c = false := by
  intro c hc
  have h := List.head?_dropWhile_not p cs
  rwa [hc] at h

end

/-- No digit is white space. -/
theorem Text.isBlank_eq_false_of_isDigit {c : Char} (h : isDigit c = true) :
    isBlank c = false := by
  have apart : ∀ start ∈ zeroPoints, ∀ range ∈ blankRanges,
      range.2 < start ∨ start + 10 ≤ range.1 := by decide
  simp only [isDigit, digitValue?, Option.isSome_map, List.find?_isSome, Bool.and_eq_true,
    decide_eq_true_eq] at h
  obtain ⟨start, hstart, hlow, hhigh⟩ := h
  simp only [isBlank, List.any_eq_false, Bool.and_eq_true, decide_eq_true_eq]
  intro range hrange
  have := apart start hstart range hrange
  omega

namespace Decimal

/-! ## Numerals -/

/-- Whether an exponent is one that can be written: a mark, perhaps a sign, and digits. -/
structure Exponent.WellFormed (e : Exponent) : Prop where
  mark : e.mark = 'e' ∨ e.mark = 'E'
  sign : ∀ c ∈ e.sign, c = '+' ∨ c = '-'
  digits : ∀ c ∈ e.digits, isDigit c = true
  nonempty : e.digits ≠ []

/-- Whether a numeral is one that can be written: there is a digit on one side of the point, and
only digits on both. -/
structure Numeral.WellFormed (n : Numeral) : Prop where
  digits : ∀ c ∈ n.digits, isDigit c = true
  nonempty : n.digits ≠ []
  exponent : ∀ e ∈ n.exponent, e.WellFormed

/-- Whether no numeral goes on with the text: it starts with none of their characters. -/
def NumeralEnds (rest : List Char) : Prop :=
  ∀ c ∈ rest.head?, isDigit c = false ∧ c ≠ '.' ∧ c ≠ 'e' ∧ c ≠ 'E'

/-- A sign in front of digits is scanned, and so is no sign. -/
theorem scanSign_append {sign : Option Char} {digits : List Char} (rest : List Char)
    (hsign : ∀ c ∈ sign, c = '+' ∨ c = '-') (hdigits : ∀ c ∈ digits, isDigit c = true)
    (hne : digits ≠ []) : scanSign (sign.toList ++ (digits ++ rest)) = (sign, digits ++ rest) := by
  cases sign with
  | some c =>
    rcases hsign c rfl with rfl | rfl <;> rfl
  | none =>
    obtain ⟨d, ds, rfl⟩ := List.exists_cons_of_ne_nil hne
    have hd : isDigit d = true := hdigits d List.mem_cons_self
    have hplus : d ≠ '+' := by rintro rfl; exact absurd hd (by decide)
    have hminus : d ≠ '-' := by rintro rfl; exact absurd hd (by decide)
    simp [scanSign, hplus, hminus]

/-- An exponent is scanned as it is written, up to the first character that is no digit. -/
theorem Exponent.scan?_append {e : Exponent} {rest : List Char} (he : e.WellFormed)
    (hrest : ∀ c ∈ rest.head?, isDigit c = false) :
    Exponent.scan? (e.chars ++ rest) = some (e, rest) := by
  obtain ⟨mark, sign, digits⟩ := e
  obtain ⟨hmark, hsign, hdigits, hne⟩ := he
  have htake := takeWhile_append_of_boundary hdigits hrest
  have hdrop := dropWhile_append_of_boundary hdigits hrest
  have hscan := scanSign_append rest hsign hdigits hne
  have hmark' : (mark == 'e' || mark == 'E') = true := by simpa using hmark
  simp only [Exponent.chars, List.cons_append, List.append_assoc, Exponent.scan?, hmark', if_true,
    hscan, htake, hdrop]
  simp [hne]

/-- There is no exponent where a numeral ends. -/
theorem Exponent.scan?_of_numeralEnds {rest : List Char} (h : NumeralEnds rest) :
    Exponent.scan? rest = none := by
  cases rest with
  | nil => rfl
  | cons c rest =>
    have := h c rfl
    simp [Exponent.scan?, this]

/-- The digits and the point are read as they are written, if no more digits follow, and no point
either in case there was none. -/
theorem scanDigits?_append {whole rest : List Char} {fraction : Option (List Char)}
    (hdigits : ∀ c ∈ whole ++ fraction.getD [], isDigit c = true)
    (hne : whole ++ fraction.getD [] ≠ [])
    (hrest : ∀ c ∈ rest.head?, isDigit c = false ∧ (fraction = none → c ≠ '.')) :
    scanDigits? (whole ++ (fraction.map ('.' :: ·)).getD [] ++ rest)
      = some (⟨whole, fraction, none⟩, rest) := by
  have hwhole : ∀ c ∈ whole, isDigit c = true := fun c hc =>
    hdigits c (List.mem_append_left _ hc)
  have hrest' : ∀ c ∈ rest.head?, isDigit c = false := fun c hc => (hrest c hc).1
  cases fraction with
  | none =>
    have htake := takeWhile_append_of_boundary hwhole hrest'
    have hdrop := dropWhile_append_of_boundary hwhole hrest'
    have hwhole_ne : whole ≠ [] := by simpa using hne
    simp only [Option.map_none, Option.getD_none, List.append_nil, scanDigits?, htake, hdrop]
    cases rest with
    | nil => simp [hwhole_ne]
    | cons c rest =>
      have hpoint : c ≠ '.' := (hrest c rfl).2 rfl
      simp [hpoint, hwhole_ne]
  | some fraction =>
    have hfraction : ∀ c ∈ fraction, isDigit c = true := fun c hc =>
      hdigits c (List.mem_append_right _ hc)
    have hpoint : ∀ c ∈ ('.' :: (fraction ++ rest)).head?, isDigit c = false := by
      rintro c ⟨⟩
      decide
    have htake := takeWhile_append_of_boundary hwhole hpoint
    have hdrop := dropWhile_append_of_boundary hwhole hpoint
    have htake' := takeWhile_append_of_boundary hfraction hrest'
    have hdrop' := dropWhile_append_of_boundary hfraction hrest'
    simp only [Option.map_some, Option.getD_some, List.append_assoc, List.cons_append, scanDigits?,
      htake, hdrop, htake', hdrop']
    simp only [Option.getD_some, ne_eq, List.append_eq_nil_iff] at hne
    simp [hne]

/-- Whether the numeral does not go on with the text. Its digits go on with digits; a point and an
exponent can only follow where there is none yet, and a mark is no exponent without digits. -/
structure Numeral.EndsBefore (n : Numeral) (rest : List Char) : Prop where
  digit : ∀ c ∈ rest.head?, isDigit c = false
  point : n.fraction = none → n.exponent = none → ∀ c ∈ rest.head?, c ≠ '.'
  exponent : n.exponent = none → Exponent.scan? rest = none

/-- A well-formed numeral is read back from its characters, if the text behind it does not go on
with it. -/
theorem Numeral.scan?_of_endsBefore {n : Numeral} {rest : List Char} (hn : n.WellFormed)
    (hrest : n.EndsBefore rest) : Numeral.scan? (n.chars ++ rest) = some (n, rest) := by
  obtain ⟨whole, fraction, exponent⟩ := n
  obtain ⟨hdigits, hne, hexponent⟩ := hn
  cases exponent with
  | none =>
    have hscan := scanDigits?_append hdigits hne fun c hc =>
      ⟨hrest.digit c hc, fun hnone => hrest.point hnone rfl c hc⟩
    simp only [Numeral.chars, Option.map_none, Option.getD_none, List.append_nil, Numeral.scan?,
      hscan, Option.map_some, hrest.exponent rfl]
  | some e =>
    have he : e.WellFormed := hexponent e rfl
    have hhead : ∀ c ∈ (e.chars ++ rest).head?,
        isDigit c = false ∧ (fraction = none → c ≠ '.') := by
      intro c hc
      obtain rfl : e.mark = c := by simpa [Exponent.chars] using hc
      rcases he.mark with h | h <;> rw [h] <;> exact ⟨by decide, fun _ => by decide⟩
    have hscan := scanDigits?_append hdigits hne hhead
    have hscan' := Exponent.scan?_append he hrest.digit
    simp only [Numeral.chars, Option.map_some, Option.getD_some, List.append_assoc] at hscan ⊢
    simp only [Numeral.scan?, hscan, Option.map_some, hscan']

/-- Where any numeral ends, this one does. -/
theorem NumeralEnds.endsBefore {rest : List Char} (h : NumeralEnds rest) (n : Numeral) :
    n.EndsBefore rest where
  digit c hc := (h c hc).1
  point _ _ c hc := (h c hc).2.1
  exponent _ := Exponent.scan?_of_numeralEnds h

/-- A numeral is scanned as it is written where numerals end. -/
theorem Numeral.scan?_append {n : Numeral} {rest : List Char} (hn : n.WellFormed)
    (hrest : NumeralEnds rest) : Numeral.scan? (n.chars ++ rest) = some (n, rest) :=
  Numeral.scan?_of_endsBefore hn (hrest.endsBefore n)

/-- An exponent that is scanned has digits. -/
theorem Exponent.wellFormed_of_scan? {cs rest : List Char} {e : Exponent}
    (h : Exponent.scan? cs = some (e, rest)) : e.WellFormed := by
  unfold Exponent.scan? at h
  split at h
  · cases h
  · rename_i mark tail
    split at h
    · rename_i hmark
      dsimp only at h
      split at h
      · cases h
      · rename_i hne
        simp only [Option.some.injEq, Prod.mk.injEq] at h
        obtain ⟨rfl, rfl⟩ := h
        refine ⟨by simpa using hmark, ?_, fun c hc => List.mem_takeWhile_imp hc, by simpa using hne⟩
        intro c hc
        unfold scanSign at hc
        split at hc
        · cases hc; exact .inl rfl
        · cases hc; exact .inr rfl
        · cases hc
    · cases h

/-- A numeral that is scanned is well formed: it has digits in front of the point or after it. -/
theorem scanDigits?_wellFormed {cs rest : List Char} {n : Numeral}
    (h : scanDigits? cs = some (n, rest)) : n.WellFormed := by
  unfold scanDigits? at h
  dsimp only at h
  split at h
  · split at h
    · cases h
    · rename_i hne
      simp only [Option.some.injEq, Prod.mk.injEq] at h
      obtain ⟨rfl, rfl⟩ := h
      refine ⟨fun c hc => ?_, ?_, nofun⟩
      · rcases List.mem_append.1 hc with hc | hc <;> exact List.mem_takeWhile_imp hc
      · simpa [Numeral.digits, List.isEmpty_iff] using hne
  · split at h
    · cases h
    · rename_i hne
      simp only [Option.some.injEq, Prod.mk.injEq] at h
      obtain ⟨rfl, rfl⟩ := h
      refine ⟨fun c hc => ?_, by simpa [Numeral.digits] using hne, nofun⟩
      rw [Numeral.digits, Option.getD_none, List.append_nil] at hc
      exact List.mem_takeWhile_imp hc

/-- Only well-formed numerals are read. -/
theorem Numeral.wellFormed_of_scan? {cs rest : List Char} {n : Numeral}
    (h : Numeral.scan? cs = some (n, rest)) : n.WellFormed := by
  unfold Numeral.scan? at h
  rw [Option.map_eq_some_iff] at h
  obtain ⟨⟨m, tail⟩, hm, h⟩ := h
  have hwell := scanDigits?_wellFormed hm
  dsimp only at h
  split at h
  · rename_i e _ he
    cases h
    refine ⟨hwell.digits, hwell.nonempty, ?_⟩
    rintro _ ⟨⟩
    exact Exponent.wellFormed_of_scan? he
  · cases h
    exact hwell

theorem Exponent.digit_of_scan? {cs rest : List Char} {e : Exponent}
    (h : Exponent.scan? cs = some (e, rest)) : ∀ c ∈ rest.head?, isDigit c = false := by
  unfold Exponent.scan? at h
  split at h
  · cases h
  · split at h
    · dsimp only at h
      split at h
      · cases h
      · cases h
        exact Text.head_dropWhile _ _
    · cases h

/-- After the digits that are scanned there is no digit, and no point either unless one has
been read. -/
theorem scanDigits?_ends {cs rest : List Char} {n : Numeral} (h : scanDigits? cs = some (n, rest)) :
    ∀ c ∈ rest.head?, isDigit c = false ∧ (n.fraction = none → c ≠ '.') := by
  unfold scanDigits? at h
  dsimp only at h
  split at h
  · split at h
    · cases h
    · cases h
      exact fun c hc => ⟨Text.head_dropWhile _ _ c hc, nofun⟩
  · rename_i hpoint
    split at h
    · cases h
    · cases h
      refine fun c hc => ⟨Text.head_dropWhile _ cs c hc, ?_⟩
      rintro - rfl
      obtain ⟨tail, htail⟩ := List.head?_eq_some_iff.1 hc
      exact hpoint tail htail

/-- A numeral is read as far as the text goes on with it. -/
theorem Numeral.endsBefore_of_scan? {cs rest : List Char} {n : Numeral}
    (h : Numeral.scan? cs = some (n, rest)) : n.EndsBefore rest := by
  unfold Numeral.scan? at h
  rw [Option.map_eq_some_iff] at h
  obtain ⟨⟨m, tail⟩, hm, h⟩ := h
  have hends := scanDigits?_ends hm
  dsimp only at h
  split at h
  · rename_i e _ he
    cases h
    exact ⟨Exponent.digit_of_scan? he, nofun, nofun⟩
  · rename_i hnone
    cases h
    exact ⟨fun c hc => (hends c hc).1, fun hfraction _ c hc => (hends c hc).2 hfraction,
      fun _ => hnone⟩

/-- What is read as a numeral, and how far. -/
theorem Numeral.scan?_eq_some_iff {cs rest : List Char} {n : Numeral} :
    Numeral.scan? cs = some (n, rest) ↔ cs = n.chars ++ rest ∧ n.WellFormed ∧ n.EndsBefore rest := by
  constructor
  · intro h
    exact ⟨(Numeral.scan?_eq_some h).1, Numeral.wellFormed_of_scan? h,
      Numeral.endsBefore_of_scan? h⟩
  · rintro ⟨rfl, hn, hrest⟩
    exact Numeral.scan?_of_endsBefore hn hrest

/-- The first character of a well-formed numeral is a digit or the point. -/
theorem Numeral.WellFormed.chars_cons {n : Numeral} (hn : n.WellFormed) :
    ∃ c cs, n.chars = c :: cs ∧ (isDigit c = true ∨ c = '.') := by
  obtain ⟨whole, fraction, exponent⟩ := n
  cases whole with
  | cons c cs => exact ⟨c, _, rfl, .inl (hn.digits c (by simp [Numeral.digits]))⟩
  | nil =>
    cases fraction with
    | none => exact absurd rfl hn.nonempty
    | some fraction => exact ⟨'.', _, rfl, .inr rfl⟩

/-- No numeral starts with a character that is neither a digit nor the point. -/
theorem Numeral.scan?_eq_none {c : Char} (cs : List Char) (hdigit : isDigit c = false)
    (hpoint : c ≠ '.') : Numeral.scan? (c :: cs) = none := by
  have hscan : scanDigits? (c :: cs) = none := by
    simp [scanDigits?, hdigit, hpoint]
  rw [Numeral.scan?, hscan, Option.map_none]

end Decimal

end XmlMacros
