import XmlMacros.Expr.Reader
import XmlMacros.Proofs.Markup.Scanning
import XmlMacros.Proofs.Run

/-!
# Which characters values are made of

Numbers and truth values are written with characters that documents may hold, and computing with
texts joins them at most. So the value of an expression is such a text if its operands are
(`isDocumentText_of_evalToText`).
-/

namespace XmlMacros

open XmlMacros.Markup XmlMacros.Decimal

theorem isDocumentChar_of_isDigit {c : Char} (h : c.isDigit) : isDocumentChar c := by
  have hdigit : 48 ≤ c.toNat ∧ c.toNat ≤ 57 := by
    simp only [Char.isDigit, ge_iff_le, Bool.and_eq_true, decide_eq_true_eq,
      UInt32.le_iff_toNat_le] at h
    exact h
  have hle : 0x20 ≤ c.toNat := by omega
  have hne : c.toNat ≠ 0xFFFE ∧ c.toNat ≠ 0xFFFF := by omega
  unfold isDocumentChar
  simp [hle, hne]

/-! ## Numbers -/

namespace Decimal

/-- Numerals are made of digits, and these may stand in documents. -/
theorem isDocumentChar_of_mem_toDigits (n : Nat) : ∀ c ∈ Nat.toDigits 10 n, isDocumentChar c :=
  fun _ hc => isDocumentChar_of_isDigit (Nat.isDigit_of_mem_toDigits (by decide) (by decide) hc)

theorem isDocumentText_toString (n : Nat) : IsDocumentText (toString n) := by
  intro c hc
  exact isDocumentChar_of_mem_toDigits n c (by simpa [toString] using hc)

/-- An integer is written with a sign at most besides its digits. -/
theorem isDocumentText_toString_int (n : Int) : IsDocumentText (toString n) := by
  cases n with
  | ofNat n => exact isDocumentText_toString n
  | negSucc n =>
    exact IsDocumentText.append (s := "-") (by decide) (isDocumentText_toString (n + 1))

/-- The digits of a number without the zeros at its end are some of its digits. -/
theorem isDocumentChar_of_mem_significantDigits {n : Nat} :
    ∀ c ∈ significantDigits n, isDocumentChar c := by
  intro c hc
  refine isDocumentChar_of_mem_toDigits n c (List.mem_reverse.1 ?_)
  exact (List.dropWhile_suffix _).subset (List.mem_reverse.1 hc)

theorem isDocumentChar_of_mem_zeros {k : Nat} : ∀ c ∈ List.replicate k '0', isDocumentChar c := by
  intro c hc
  rw [List.eq_of_mem_replicate hc]
  rfl

/-- Zeros in front of a numeral may stand in documents like the numeral itself. -/
theorem isDocumentText_padded (width n : Nat) : IsDocumentText (padded width n) :=
  isDocumentText_ofList.2 (List.forall_mem_append.2
    ⟨isDocumentChar_of_mem_zeros, isDocumentChar_of_mem_toDigits n⟩)

/-- Whatever the layout of decimals, digits, signs, points and exponents are all that is written. -/
theorem Layout.isDocumentText_write (layout : Layout) (d : Scaled) :
    IsDocumentText (layout.write d) := by
  have hdigits : ∀ c ∈ significantDigits d.mantissa, isDocumentChar c :=
    isDocumentChar_of_mem_significantDigits
  have htake : ∀ k, ∀ c ∈ (significantDigits d.mantissa).take k, isDocumentChar c :=
    fun k c hc => hdigits c (List.mem_of_mem_take hc)
  have hdrop : ∀ k, ∀ c ∈ (significantDigits d.mantissa).drop k, isDocumentChar c :=
    fun k c hc => hdigits c (List.mem_of_mem_drop hc)
  unfold write
  dsimp only
  split
  · split
    · exact IsDocumentText.append (s := "0.") (by decide) (isDocumentText_ofList.2
        (List.forall_mem_append.2 ⟨isDocumentChar_of_mem_zeros, hdigits⟩))
    · refine .append (.append (t := ".") (isDocumentText_ofList.2
        (List.forall_mem_append.2 ⟨htake _, isDocumentChar_of_mem_zeros⟩)) (by decide)) ?_
      split
      · decide
      · exact isDocumentText_ofList.2 (hdrop _)
  · have hpoint : ∀ cs : List Char, (∀ c ∈ cs, isDocumentChar c) →
        IsDocumentText (if cs.isEmpty then "" else "." ++ String.ofList cs) := by
      intro cs hcs
      split
      · decide
      · exact IsDocumentText.append (s := ".") (by decide) (isDocumentText_ofList.2 hcs)
    have hsign : ∀ p : Prop, [Decidable p] → IsDocumentText (if p then "-" else "+") := by
      intro p _
      split <;> decide
    exact ((((isDocumentText_ofList.2 (htake _)).append (hpoint _ (hdrop _))).append
      (t := "e") (by decide)).append (hsign _)).append (isDocumentText_padded _ _)

/-- What is no number or infinite is written in letters. -/
theorem Layout.isDocumentText_writeFloat (layout : Layout) (x : Float) :
    IsDocumentText (layout.writeFloat x) := by
  unfold writeFloat
  split
  · decide
  · split <;> decide
  · next d _ =>
    have hsign : IsDocumentText (if d.negative then "-" else "") := by
      split <;> decide
    dsimp only
    cases d.mantissa == 0 with
    | true => exact hsign.append (t := "0.0") (by decide)
    | false => exact hsign.append (layout.isDocumentText_write _)

end Decimal

namespace Expr

/-! ## Values -/

/-- A value is legal if it is no text that documents may not hold. -/
def Value.Legal (v : Value) : Prop :=
  ∀ s, v = .text s → IsDocumentText s

/-- The text of a value is the only part of it that may hold other characters. -/
theorem Value.legal_text {s : String} (h : IsDocumentText s) : (Value.text s).Legal := by
  rintro _ ⟨⟩
  exact h

/-- What a legal value is written as may stand in a document: for a text this is the text itself. -/
theorem isDocumentText_of_write {v : Value} (hv : v.Legal) {s : String} (h : v.write = .ok s) :
    IsDocumentText s := by
  unfold Value.write at h
  split at h
  · next b =>
    cases h
    cases b <;> decide
  · next n =>
    unfold writeInt at h
    dsimp only at h
    split at h
    · cases h
    · cases h
      split
      · exact .append (by decide) (isDocumentText_toString _)
      · exact isDocumentText_toString _
  · next x =>
    cases h
    unfold writeFloat
    split
    · split
      · exact isDocumentText_toString_int _
      · exact floatLayout.isDocumentText_writeFloat x
    · exact floatLayout.isDocumentText_writeFloat x
  · cases h
    exact hv s rfl

/-- A sum of texts is made of their characters, and a sum of numbers is a number. -/
theorem legal_of_add {a b v : Value} (ha : a.Legal) (hb : b.Legal) (h : a.add b = .ok v) :
    v.Legal := by
  unfold Value.add at h
  split at h
  · obtain ⟨s, hs, h⟩ := exists_of_bind_eq_ok h
    obtain ⟨t, ht, h⟩ := exists_of_bind_eq_ok h
    cases h
    exact Value.legal_text ((isDocumentText_of_write ha hs).append (isDocumentText_of_write hb ht))
  · obtain ⟨x, -, h⟩ := exists_of_bind_eq_ok h
    obtain ⟨y, -, h⟩ := exists_of_bind_eq_ok h
    obtain ⟨z, -, h⟩ := exists_of_bind_eq_ok h
    cases h
    nofun

/-- An operator gives a number or a truth value, unless it joins texts. -/
theorem legal_of_apply {op : Operator} {a b v : Value} (ha : a.Legal) (hb : b.Legal)
    (h : op.apply a b = .ok v) : v.Legal := by
  cases op with
  | plus => exact legal_of_add ha hb h
  | equal =>
    obtain ⟨_, -, h⟩ := exists_of_bind_eq_ok h
    cases h
    nofun
  | minus | times | divide | remainder =>
    obtain ⟨_, -, h⟩ := exists_of_bind_eq_ok h
    obtain ⟨_, -, h⟩ := exists_of_bind_eq_ok h
    obtain ⟨_, -, h⟩ := exists_of_bind_eq_ok h
    cases h
    nofun
  | bitAnd | bitOr =>
    obtain ⟨_, -, h⟩ := exists_of_bind_eq_ok h
    obtain ⟨_, -, h⟩ := exists_of_bind_eq_ok h
    obtain ⟨_, -, h⟩ := exists_of_bind_eq_ok h
    obtain ⟨_, -, h⟩ := exists_of_bind_eq_ok h
    cases h
    nofun

/-- An operator takes its left operand as it is, or as a number, which has no characters. -/
theorem legal_of_leftOperand {op : Operator} {a v : Value} (ha : a.Legal)
    (h : op.leftOperand a = .ok v) : v.Legal := by
  cases op with
  | plus | minus | equal =>
    cases h
    exact ha
  | times | divide | remainder =>
    unfold Operator.leftOperand at h
    cases hnumber : a.toNumber with
    | error c =>
      rw [hnumber] at h
      cases h
    | ok x =>
      rw [hnumber] at h
      cases h
      nofun
  | bitAnd | bitOr =>
    obtain ⟨_, -, h⟩ := exists_of_bind_eq_ok h
    obtain ⟨_, -, h⟩ := exists_of_bind_eq_ok h
    cases h
    nofun

/-- What has a sign is a number. -/
theorem legal_of_sign {sign : Sign} {a v : Value} (h : sign.apply a = .ok v) : v.Legal := by
  obtain ⟨_, -, h⟩ := exists_of_bind_eq_ok h
  cases sign <;> (cases h; nofun)

/-! ## Tokens -/

/-- A token is legal if the value that it carries and the text it is shown with are. -/
def Token.Legal : Token → Prop
  | .operand value text => value.Legal ∧ IsDocumentText text
  | _ => True

/-- All tokens are legal. -/
def LegalTokens (tokens : List Token) : Prop :=
  ∀ t ∈ tokens, t.Legal

/-- From legal tokens the reader computes legal values. -/
def LegalReader (r : Reader) : Prop :=
  ∀ {tokens rest v}, LegalTokens tokens → r tokens = .ok (v, rest) → v.Legal ∧ LegalTokens rest

theorem LegalTokens.tail {t : Token} {tokens : List Token} (h : LegalTokens (t :: tokens)) :
    LegalTokens tokens :=
  (List.forall_mem_cons.1 h).2

/-- Along a chain of operators every intermediate value is legal, by recursion on the operators that
are left. -/
theorem legalReader_chainRest {next : Reader} (hnext : LegalReader next) {ops : List Operator}
    {fuel : Nat} {a : Value} (ha : a.Legal) : LegalReader (chainRest ops next fuel a) := by
  induction fuel generalizing a with
  | zero =>
    intro tokens rest v htokens h
    cases h
    exact ⟨ha, htokens⟩
  | succ fuel ih =>
    intro tokens rest v htokens h
    unfold chainRest at h
    split at h
    · split at h
      · obtain ⟨left, hleft, h⟩ := exists_of_bind_eq_ok h
        obtain ⟨⟨b, tokens'⟩, hb, h⟩ := exists_of_bind_eq_ok h
        obtain ⟨c, hc, h⟩ := exists_of_bind_eq_ok h
        obtain ⟨hb, htokens'⟩ := hnext htokens.tail hb
        exact ih (legal_of_apply (legal_of_leftOperand ha hleft) hb hc) htokens' h
      · cases h
        exact ⟨ha, htokens⟩
    · cases h
      exact ⟨ha, htokens⟩

/-- A chain of operators is legal if all of its operands are. -/
theorem legalReader_chain {next : Reader} (hnext : LegalReader next) (ops : List Operator) :
    LegalReader (chain ops next) := by
  intro tokens rest v htokens h
  obtain ⟨⟨a, tokens'⟩, ha, h⟩ := exists_of_bind_eq_ok h
  obtain ⟨ha, htokens'⟩ := hnext htokens ha
  exact legalReader_chainRest hnext ha htokens' h

/-- The levels of an expression are chains, each of operands on the level below. -/
theorem legalReader_expression {next : Reader} (hnext : LegalReader next) :
    LegalReader (expression next) := by
  unfold expression
  induction levels with
  | nil => exact hnext
  | cons ops rest ih => exact legalReader_chain ih ops

/-- What is in parentheses or behind a sign is read by the same reader with one less level to go, so
the induction is on the levels. -/
theorem legalReader_factor (depth : Nat) : LegalReader (factor depth) := by
  induction depth with
  | zero => exact fun _ h => nomatch h
  | succ depth ih =>
    intro tokens rest v htokens h
    unfold factor at h
    split at h
    · cases h
    · cases h
      exact ⟨(htokens _ List.mem_cons_self).1, htokens.tail⟩
    · obtain ⟨⟨a, tokens'⟩, ha, h⟩ := exists_of_bind_eq_ok h
      obtain ⟨b, hb, h⟩ := exists_of_bind_eq_ok h
      cases h
      exact ⟨legal_of_sign hb, (ih htokens.tail ha).2⟩
    · obtain ⟨⟨a, tokens'⟩, ha, h⟩ := exists_of_bind_eq_ok h
      obtain ⟨b, hb, h⟩ := exists_of_bind_eq_ok h
      cases h
      exact ⟨legal_of_sign hb, (ih htokens.tail ha).2⟩
    · obtain ⟨⟨a, tokens'⟩, hinner, h⟩ := exists_of_bind_eq_ok h
      obtain ⟨ha, htokens'⟩ := legalReader_expression ih htokens.tail hinner
      dsimp only at h
      split at h
      · cases h
      · cases h
        exact ⟨ha, htokens'.tail⟩
      · cases h
    · cases h

/-- What legal tokens evaluate to is a text that documents may hold. -/
theorem isDocumentText_of_evalToText {depth : Nat} {tokens : List Token} {s : String}
    (htokens : LegalTokens tokens) (h : evalToText depth tokens = .ok s) : IsDocumentText s := by
  unfold evalToText at h
  split at h
  · cases h
    exact (htokens _ List.mem_cons_self).2
  · obtain ⟨v, hv, h⟩ := exists_of_bind_eq_ok h
    obtain ⟨⟨a, rest⟩, ha, hv⟩ := exists_of_bind_eq_ok hv
    dsimp only at hv
    split at hv
    · cases hv
      exact isDocumentText_of_write (legalReader_expression (legalReader_factor depth) htokens ha).1 h
    · cases hv

end Expr

end XmlMacros
