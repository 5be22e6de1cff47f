import XmlMacros.Condition
import XmlMacros.Proofs.Expr.Integers

/-!
# Conditions read values back

A condition sees no more of a value than its text. It reads a number at the start of the text, where
white space and other signs may stand as well and anything may follow; a text that is a number
starts with just this number (`leadingNumber?_of_signedNumeral?`). So an integer counts as true
unless it is zero, however it is spelled and however many digits it has (`holds_of_number?`), and a
truth value counts as what it is (`Value.holds_of_write`). An integer that has no text is not zero
(`Value.truth_of_write_error`).
-/

namespace XmlMacros

open XmlMacros.Decimal XmlMacros.Expr

/-! ## The number at the start of a text -/

/-- No numeral starts with white space or a sign. -/
theorem Decimal.Numeral.head_of_scan? {cs rest : List Char} {n : Numeral}
    (h : Numeral.scan? cs = some (n, rest)) :
    ∃ c tail, cs = c :: tail ∧ Text.isBlank c = false ∧ c ≠ '+' ∧ c ≠ '-' := by
  obtain ⟨c, tail, hchars, hc⟩ := (Numeral.wellFormed_of_scan? h).chars_cons
  have hcs := (Numeral.scan?_eq_some h).1
  rw [hchars, List.cons_append] at hcs
  refine ⟨c, tail ++ rest, hcs, ?_⟩
  rcases hc with hdigit | rfl
  · refine ⟨Text.isBlank_eq_false_of_isDigit hdigit, ?_, ?_⟩ <;>
    · rintro rfl
      exact absurd hdigit (by decide)
  · decide

/-- A text that is a number is a numeral, perhaps behind a minus sign. -/
theorem Decimal.exists_scan?_of_signedNumeral? {s : String} {negative : Bool} {n : Numeral}
    (h : signedNumeral? s = some (negative, n)) : ∃ cs rest, Numeral.scan? cs = some (n, rest) ∧
      (s.toList = cs ∨ s.toList = '-' :: cs) := by
  unfold signedNumeral? at h
  generalize s.toList = text at h ⊢
  dsimp only at h
  split at h <;> cases h
  all_goals
    next hscan =>
      refine ⟨_, _, hscan, ?_⟩
      split
      · exact .inr rfl
      · exact .inl rfl

/-- A text that is a number starts with this number. -/
theorem leadingNumber?_of_signedNumeral? {s : String} {negative : Bool} {n : Numeral}
    (h : signedNumeral? s = some (negative, n)) : leadingNumber? s = some n.scaled := by
  obtain ⟨cs, rest, hscan, hs⟩ := exists_scan?_of_signedNumeral? h
  obtain ⟨c, tail, rfl, hblank, hplus, hminus⟩ := Numeral.head_of_scan? hscan
  have hstart : (scanSign (Text.dropBlanks s.toList)).2 = c :: tail := by
    rcases hs with hs | hs
    · simp [hs, Text.dropBlanks, hblank, scanSign, hplus, hminus]
    · rw [hs]
      rfl
  rw [leadingNumber?, hstart, hscan]
  rfl

/-! ## Integers -/

/-- A numeral that denotes an integer is this integer without its sign. -/
theorem scaled_of_numberOfNumeral {negative : Bool} {n : Numeral} {m : Int}
    (h : numberOfNumeral negative n = .ok (.int m)) : n.scaled = ⟨m.natAbs, 0⟩ := by
  unfold numberOfNumeral at h
  split at h
  · rename_i hinteger
    obtain ⟨hfraction, hexponent⟩ : n.fraction = none ∧ n.exponent = none := by
      simpa [Numeral.isInteger] using hinteger
    split at h
    · cases h
    · cases h
      cases negative <;> simp [Numeral.scaled, hfraction, hexponent]
  · cases h

/-- A text that is an integer counts as true unless the integer is zero. -/
theorem holds_of_number? {s : String} {m : Int} (h : number? s = some (.ok (.int m))) :
    holds s = (m != 0) := by
  obtain ⟨⟨negative, n⟩, hn, hm⟩ := Option.map_eq_some_iff.1 h
  rw [holds, leadingNumber?_of_signedNumeral? hn, scaled_of_numberOfNumeral hm]
  show (!(m.natAbs == 0)) = _
  rw [Bool.eq_iff_iff]
  simp

/-! ## Values -/

/-- What a truth value or an integer counts as: the truth value as what it is, and the integer as
true unless it is zero. -/
def Expr.Value.truth? : Value → Option Bool
  | .bool b => some b
  | .number (.int m) => some (m != 0)
  | .number (.float _) | .text _ => none

section
variable {v : Value} {b : Bool}

/-- A number counts as a text does that is read as it. -/
theorem Expr.Value.holds_of_read {x : Number} {text : String} (h : (Value.number x).truth? = some b)
    (hread : number? text = some (.ok x)) : holds text = b := by
  cases x with
  | int m =>
    cases h
    exact holds_of_number? hread
  | float => cases h

/-- A value counts as its text does. -/
theorem Expr.Value.holds_of_write {text : String} (h : v.truth? = some b)
    (hwritten : v.write = .ok text) : holds text = b := by
  cases v with
  | bool b' =>
    cases h
    cases hwritten
    cases b <;> decide
  | text => cases h
  | number x =>
    refine Value.holds_of_read h ?_
    cases x with
    | float => cases h
    | int m =>
      by_cases hshort : (toString m.natAbs).length ≤ digitLimit
      · obtain rfl : toString m = text := Except.ok.inj ((writeInt_eq hshort).symm.trans hwritten)
        exact (integerText_toString hshort).number?_eq
      · have hlong : writeInt m = .error (.arithmetic .integerTooLong) :=
          if_pos (Nat.not_le.1 hshort)
        cases hlong.symm.trans hwritten

/-- A value that has no text counts as true. -/
theorem Expr.Value.truth_of_write_error {cause : Cause} (h : v.truth? = some b)
    (hwritten : v.write = .error cause) : b = true := by
  cases v with
  | bool | text => cases hwritten
  | number x =>
    cases x with
    | float => cases hwritten
    | int m =>
      cases h
      rw [bne_iff_ne]
      rintro rfl
      have hzero : writeInt 0 = .ok "0" := by decide
      cases hzero.symm.trans hwritten

end

end XmlMacros
