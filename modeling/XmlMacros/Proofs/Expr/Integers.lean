import XmlMacros.Proofs.Expr.Replacement
import Mathlib.Data.Int.Bitwise
import Mathlib.Data.Nat.Bitwise

/-!
# Expressions of integers

Integers are computed with exactly. `Operator.Exact` and `Tree.Exact` say what the value of an
expression of integers is, without reference to how it is computed: the remainder is what truncated
division leaves, and the bit operations act on each bit in two's complement. The evaluation of trees
gives these values (`Tree.Exact.eval_eq`), and the numeral that an integer is written as is read
back as the same integer (`integerText_toString`, `IntegerText.number?_eq`).
-/

namespace XmlMacros.Expr

open Decimal

/-! ## Bits -/

/-- The bits of a number are those that it has in common with another one and those that it
has alone. -/
theorem land_add_ldiff (m n : Nat) : (m &&& n) + Nat.ldiff m n = m := by
  induction m using Nat.binaryRec generalizing n with
  | zero => simp [Nat.ldiff]
  | bit a m ih =>
    induction n using Nat.bitCasesOn with
    | bit b n =>
      have := ih n
      rw [Nat.land_bit, Nat.ldiff_bit]
      cases a <;> cases b <;> simp only [Nat.bit_val] <;> simp <;> omega

/-- The bits that a number does not have in common with another one. -/
theorem sub_land_eq_ldiff (m n : Nat) : m - (m &&& n) = Nat.ldiff m n :=
  Nat.sub_eq_of_eq_add' (land_add_ldiff m n).symm

/-- The bitwise conjunction is that of integers as two's complements of any length. -/
theorem bitAnd_eq_land (m n : Int) : bitAnd m n = Int.land m n := by
  cases m <;> cases n <;> simp only [bitAnd, sub_land_eq_ldiff] <;> rfl

/-- The bitwise disjunction is that of integers as two's complements of any length. -/
theorem bitOr_eq_lor (m n : Int) : bitOr m n = Int.lor m n := by
  cases m <;> cases n <;> simp only [bitOr, sub_land_eq_ldiff] <;> rfl

/-- Integers with the same bits are the same. -/
theorem eq_of_testBit_eq {m n : Int} (h : ∀ i, m.testBit i = n.testBit i) : m = n := by
  -- Far out, the bits of an integer tell its sign.
  have far (m n : Nat) : ∃ i, m.testBit i = false ∧ n.testBit i = false :=
    ⟨max m n, Nat.testBit_lt_two_pow (lt_of_le_of_lt (le_max_left m n) Nat.lt_two_pow_self),
      Nat.testBit_lt_two_pow (lt_of_le_of_lt (le_max_right m n) Nat.lt_two_pow_self)⟩
  cases m with
  | ofNat m =>
    cases n with
    | ofNat n => exact congrArg Int.ofNat (Nat.eq_of_testBit_eq h)
    | negSucc n =>
      obtain ⟨i, hm, hn⟩ := far m n
      have hi : m.testBit i = !n.testBit i := h i
      rw [hm, hn] at hi
      cases hi
  | negSucc m =>
    cases n with
    | ofNat n =>
      obtain ⟨i, hm, hn⟩ := far m n
      have hi : (!m.testBit i) = n.testBit i := h i
      rw [hm, hn] at hi
      cases hi
    | negSucc n =>
      exact congrArg Int.negSucc (Nat.eq_of_testBit_eq fun i => Bool.not_inj (h i))

/-! ## Exact values -/

/-- What an operator makes of two integers. The remainder is what is left of the dividend once the
divisor is taken from it as often as the truncated quotient says; of bits in two's complement
without an end, those are kept that both integers have, or one of them. -/
inductive Operator.Exact : Operator → Int → Int → Int → Prop
  | plus (m n : Int) : Exact .plus m n (m + n)
  | minus (m n : Int) : Exact .minus m n (m - n)
  | times (m n : Int) : Exact .times m n (m * n)
  | remainder (m : Int) {n : Int} (h : n ≠ 0) : Exact .remainder m n (m - n * m.tdiv n)
  | bitAnd {m n k : Int} (h : ∀ i, k.testBit i = (m.testBit i && n.testBit i)) : Exact .bitAnd m n k
  | bitOr {m n k : Int} (h : ∀ i, k.testBit i = (m.testBit i || n.testBit i)) : Exact .bitOr m n k

/-- The value of an expression of integers, given those of its operands. -/
inductive Tree.Exact {α : Type} (value : α → Int → Prop) : Tree α → Int → Prop
  | operand {a : α} {m : Int} (h : value a m) : Exact value (.operand a) m
  | paren {t : Tree α} {m : Int} (h : Exact value t m) : Exact value (.paren t) m
  | plus {t : Tree α} {m : Int} (h : Exact value t m) : Exact value (.signed .plus t) m
  | minus {t : Tree α} {m : Int} (h : Exact value t m) : Exact value (.signed .minus t) (-m)
  | binary {op : Operator} {left right : Tree α} {m n k : Int} (hleft : Exact value left m)
    (hright : Exact value right n) (hop : op.Exact m n k) : Exact value (.binary op left right) k

/-- An expression is made of integers: its operators are those on integers, and nothing in it is
divided by zero. -/
def Tree.Integral {α : Type} (value : α → Int → Prop) : Tree α → Prop
  | .operand a => ∃ m, value a m
  | .paren inner => inner.Integral value
  | .signed _ inner => inner.Integral value
  | .binary op left right => left.Integral value ∧ right.Integral value ∧ op ≠ .divide ∧
    op ≠ .equal ∧
      (op = .remainder → ¬ right.Exact value 0)

/-- Every operator but division and comparison gives an integer for integers, unless a remainder by
zero is asked for. -/
theorem Operator.exists_exact {op : Operator} {m n : Int} (hdivide : op ≠ .divide)
    (hequal : op ≠ .equal) (hzero : op = .remainder → n ≠ 0) : ∃ k, op.Exact m n k := by
  cases op with
  | plus => exact ⟨_, .plus m n⟩
  | minus => exact ⟨_, .minus m n⟩
  | times => exact ⟨_, .times m n⟩
  | remainder => exact ⟨_, .remainder m (hzero rfl)⟩
  | bitAnd => exact ⟨_, .bitAnd fun i => Int.testBit_land m n i⟩
  | bitOr => exact ⟨_, .bitOr fun i => Int.testBit_lor m n i⟩
  | divide => exact absurd rfl hdivide
  | equal => exact absurd rfl hequal

/-- An expression that is made of integers has an exact value. -/
theorem Tree.Integral.exists_exact {α : Type} {value : α → Int → Prop} {t : Tree α}
    (h : t.Integral value) : ∃ m, t.Exact value m := by
  induction t with
  | operand a =>
    obtain ⟨m, hm⟩ := h
    exact ⟨m, .operand hm⟩
  | paren inner ih =>
    obtain ⟨m, hm⟩ := ih h
    exact ⟨m, .paren hm⟩
  | signed sign inner ih =>
    obtain ⟨m, hm⟩ := ih h
    cases sign with
    | plus => exact ⟨m, .plus hm⟩
    | minus => exact ⟨-m, .minus hm⟩
  | binary op left right ihl ihr =>
    obtain ⟨hleft, hright, hdivide, hequal, hzero⟩ := h
    obtain ⟨m, hm⟩ := ihl hleft
    obtain ⟨n, hn⟩ := ihr hright
    have hn0 : op = .remainder → n ≠ 0 := by
      rintro hop rfl
      exact hzero hop hn
    obtain ⟨k, hk⟩ := Operator.exists_exact (m := m) hdivide hequal hn0
    exact ⟨k, .binary hm hn hk⟩

/-- A remainder is smaller than the divisor, and has the sign of the dividend unless it is zero. -/
theorem Operator.Exact.remainder_bounds {m n r : Int} (h : Operator.Exact .remainder m n r) :
    r.natAbs < n.natAbs ∧ (r = 0 ∨ r.sign = m.sign) := by
  cases h with
  | remainder m h =>
    rw [← Int.tmod_def, Int.natAbs_tmod, Int.sign_tmod]
    refine ⟨Nat.mod_lt _ (Int.natAbs_pos.2 h), ?_⟩
    split
    · exact .inl (Int.tmod_eq_zero_of_dvd ‹_›)
    · exact .inr rfl

/-- Operators compute with integers exactly. -/
theorem Operator.Exact.apply_eq {op : Operator} {m n k : Int} (h : op.Exact m n k) :
    (op.leftOperand (.number (.int m)) >>= fun a => op.apply a (.number (.int n))) =
      .ok (.number (.int k)) := by
  cases h with
  | plus | minus | times => rfl
  | remainder m h =>
    have hzero : (Number.int n).isZero = false := beq_false_of_ne h
    show (Number.remainder (.int m) (.int n)).map Value.number = _
    rw [Number.remainder, hzero, ← Int.tmod_def]
    rfl
  | bitAnd h =>
    have hk : k = Expr.bitAnd m n := eq_of_testBit_eq fun i => by
      rw [h, bitAnd_eq_land, Int.testBit_land]
    rw [hk]
    rfl
  | bitOr h =>
    have hk : k = Expr.bitOr m n := eq_of_testBit_eq fun i => by
      rw [h, bitOr_eq_lor, Int.testBit_lor]
    rw [hk]
    rfl

/-- An expression whose operands are integers is computed exactly. -/
theorem Tree.Exact.eval_eq {α : Type} {exactly : α → Int → Prop} {value : α → Except Cause Value}
    {t : Tree α} {m : Int} (h : t.Exact exactly m)
    (hvalue : ∀ a n, exactly a n → value a = .ok (.number (.int n))) :
    t.eval value = .ok (.number (.int m)) := by
  induction h with
  | operand h => exact hvalue _ _ h
  | paren _ ih => exact ih
  | plus _ ih | minus _ ih =>
    rw [eval, ih]
    rfl
  | binary _ _ hop ihl ihr =>
    rw [eval, ihl, ihr]
    exact hop.apply_eq

/-! ## Numerals of integers -/

/-- A text is an integer: digits, not too many, perhaps after a minus sign. A line feed behind them
is let pass. -/
inductive IntegerText : String → Int → Prop
  | positive (digits : List Char) {ending : List Char} (hdigits : ∀ c ∈ digits, Text.isDigit c = true)
    (hne : digits ≠ []) (hshort : digits.length ≤ digitLimit)
    (hending : ending = [] ∨ ending = ['\n']) :
    IntegerText (String.ofList (digits ++ ending)) (Text.natOfDigits digits)
  | negative (digits : List Char) {ending : List Char} (hdigits : ∀ c ∈ digits, Text.isDigit c = true)
    (hne : digits ≠ []) (hshort : digits.length ≤ digitLimit)
    (hending : ending = [] ∨ ending = ['\n']) :
    IntegerText (String.ofList ('-' :: digits ++ ending)) (-Text.natOfDigits digits)

/-- Digits are read as an integer. -/
theorem numeral_scan?_digits {digits ending : List Char}
    (hdigits : ∀ c ∈ digits, Text.isDigit c = true) (hne : digits ≠ [])
    (hending : ending = [] ∨ ending = ['\n']) :
    Numeral.scan? (digits ++ ending) = some (⟨digits, none, none⟩, ending) := by
  have hformed : Numeral.WellFormed ⟨digits, none, none⟩ := by
    refine ⟨fun c hc => hdigits c ?_, ?_, ?_⟩
    · simpa [Numeral.digits] using hc
    · simpa [Numeral.digits] using hne
    · rintro x ⟨⟩
  have hends : NumeralEnds ending := by
    rcases hending with rfl | rfl
    · rintro c ⟨⟩
    · rintro c ⟨⟩
      decide
  have hscan := Numeral.scan?_append hformed hends
  simpa [Numeral.chars] using hscan

/-- Digits that are not too many are read as the integer that they write. -/
theorem numberOfNumeral_digits (negative : Bool) {digits : List Char}
    (hshort : digits.length ≤ digitLimit) :
    numberOfNumeral negative ⟨digits, none, none⟩ =
      .ok (.int (if negative then -Text.natOfDigits digits else Text.natOfDigits digits)) := by
  have hdigits : (Numeral.digits ⟨digits, none, none⟩) = digits := List.append_nil digits
  simp [numberOfNumeral, Numeral.isInteger, hdigits, Nat.not_lt.2 hshort]

/-- A text that is an integer is read as this integer. -/
theorem IntegerText.number?_eq {s : String} {m : Int} (h : IntegerText s m) :
    number? s = some (.ok (.int m)) := by
  cases h with
  | @positive digits ending hdigits hne hshort hending =>
    have hscan := numeral_scan?_digits hdigits hne hending
    obtain ⟨d, ds, rfl⟩ := List.exists_cons_of_ne_nil hne
    have hminus : d ≠ '-' := by
      rintro rfl
      exact absurd (hdigits '-' List.mem_cons_self) (by decide)
    have hs : signedNumeral? (String.ofList (d :: ds ++ ending)) =
        some (false, ⟨d :: ds, none, none⟩) := by
      rcases hending with rfl | rfl
      · rw [List.append_nil] at hscan ⊢
        simp [signedNumeral?, hminus, hscan]
      · rw [List.cons_append] at hscan ⊢
        simp [signedNumeral?, hminus, hscan]
    rw [number?, hs]
    exact congrArg some (numberOfNumeral_digits false hshort)
  | @negative digits ending hdigits hne hshort hending =>
    have hscan := numeral_scan?_digits hdigits hne hending
    have hs : signedNumeral? (String.ofList ('-' :: digits ++ ending)) =
        some (true, ⟨digits, none, none⟩) := by
      rcases hending with rfl | rfl
      · rw [List.append_nil] at hscan ⊢
        simp [signedNumeral?, hscan]
      · simp [signedNumeral?, hscan]
    rw [number?, hs]
    exact congrArg some (numberOfNumeral_digits true hshort)

/-- Digits of the standard are digits, with the same values. -/
theorem digitValue?_of_isDigit {c : Char} (h : c.isDigit = true) :
    Text.digitValue? c = some (c.toNat - '0'.toNat) := by
  rw [Char.isDigit, Bool.and_eq_true, decide_eq_true_iff, decide_eq_true_iff] at h
  have hlow : 0x30 ≤ c.toNat := h.1
  have hhigh : c.toNat ≤ 0x39 := h.2
  have hrow : (decide (0x30 ≤ c.toNat) && decide (c.toNat < 0x30 + 10)) = true := by
    rw [Bool.and_eq_true, decide_eq_true_iff, decide_eq_true_iff]
    omega
  have hfind (rest : List Nat) : (0x30 :: rest).find?
      (fun start => decide (start ≤ c.toNat) && decide (c.toNat < start + 10)) = some 0x30 :=
    List.find?_cons_of_pos hrow
  exact congrArg (Option.map (c.toNat - ·)) (hfind _)

/-- The digits that a number is written with denote it. -/
theorem natOfDigits_toDigits (n : Nat) : Text.natOfDigits (Nat.toDigits 10 n) = n := by
  have hdigit : ∀ c ∈ Nat.toDigits 10 n, ∀ acc : Nat,
      10 * acc + (Text.digitValue? c).getD 0 = 10 * acc + (c.toNat - '0'.toNat) := by
    intro c hc acc
    rw [digitValue?_of_isDigit (Nat.isDigit_of_mem_toDigits (by decide) (by decide) hc),
      Option.getD_some]
  calc Text.natOfDigits (Nat.toDigits 10 n)
      = (Nat.toDigits 10 n).foldl (fun acc c => 10 * acc + (c.toNat - '0'.toNat)) 0 :=
        List.foldl_ext _ _ _ fun acc c hc => hdigit c hc acc
    _ = n := by rw [← Nat.ofDigitChars_eq_foldl, Nat.ofDigitChars_ten_toDigits]

theorem isDigit_of_mem_toDigits {n : Nat} : ∀ c ∈ Nat.toDigits 10 n, Text.isDigit c = true := by
  intro c hc
  rw [Text.isDigit,
    digitValue?_of_isDigit (Nat.isDigit_of_mem_toDigits (by decide) (by decide) hc)]
  rfl

/-- The numeral of an integer is that integer. -/
theorem integerText_toString {m : Int} (h : (toString m.natAbs).length ≤ digitLimit) :
    IntegerText (toString m) m := by
  rw [Nat.toString_eq_ofList_toDigits, String.length_ofList] at h
  cases m with
  | ofNat n =>
    rw [Int.ofNat_eq_natCast, Int.natAbs_natCast] at h
    have htext : toString (Int.ofNat n) = String.ofList (Nat.toDigits 10 n ++ []) := by
      rw [List.append_nil]
      exact Nat.toString_eq_ofList_toDigits
    have := IntegerText.positive _ isDigit_of_mem_toDigits Nat.toDigits_ne_nil h (.inl rfl)
    rwa [← htext, natOfDigits_toDigits] at this
  | negSucc n =>
    rw [Int.natAbs_negSucc] at h
    have htext : toString (Int.negSucc n) =
        String.ofList ('-' :: Nat.toDigits 10 (n + 1) ++ []) := by
      rw [List.append_nil, String.ofList_cons]
      exact congrArg ("-" ++ ·) Nat.toString_eq_ofList_toDigits
    have := IntegerText.negative _ isDigit_of_mem_toDigits Nat.toDigits_ne_nil h (.inl rfl)
    rwa [← htext, natOfDigits_toDigits] at this

/-- An integer that is not too long is written as its numeral. -/
theorem writeInt_eq {m : Int} (h : (toString m.natAbs).length ≤ digitLimit) :
    writeInt m = .ok (toString m) := by
  have hsign : (if m < 0 then "-" ++ toString m.natAbs else toString m.natAbs) = toString m := by
    cases m with
    | ofNat n => exact if_neg (Int.not_lt.2 (Int.natCast_nonneg n))
    | negSucc n => exact if_pos (Int.negSucc_lt_zero n)
  rw [writeInt, if_neg (Nat.not_lt.2 h), hsign]

/-- Parentheses do not change the integer that a tree gives. -/
theorem Tree.Exact.enclosed {α : Type} {value : α → Int → Prop} {t : Tree α} {m : Int}
    (h : t.Exact value m) (n : Nat) : (t.enclosed n).Exact value m := by
  induction n with
  | zero => exact h
  | succ n ih => exact .paren ih

/-- Minus signs in pairs change nothing. -/
theorem Tree.Exact.negated {α : Type} {value : α → Int → Prop} {t : Tree α} {m : Int}
    (h : t.Exact value m) (n : Nat) : (t.negated (2 * n)).Exact value m := by
  induction n with
  | zero => exact h
  | succ n ih =>
    have htwice : (t.negated (2 * (n + 1))).Exact value (- -m) := .minus (.minus ih)
    rwa [Int.neg_neg] at htwice

@[simp] theorem Tree.integral_enclosed {α : Type} (value : α → Int → Prop) (n : Nat) (t : Tree α) :
    (t.enclosed n).Integral value ↔ t.Integral value := by
  induction n with
  | zero => rfl
  | succ n ih => exact ih

/-- A tree in parentheses is no operand. -/
theorem Tree.enclosed_ne_operand {α : Type} {n : Nat} (h : 0 < n) (t : Tree α) (a : α) :
    t.enclosed n ≠ .operand a := by
  cases n with
  | zero => cases h
  | succ n => exact nofun

/-! ## Names that are integers -/

/-- The operand is an integer: a literal of digits, not too many, or a name that is worth an
integer. -/
inductive Operand.IsInteger (worth : String → String) : Operand → Int → Prop
  | literal (digits : List Char) (h : Numeral.WellFormed ⟨digits, none, none⟩)
    (hshort : digits.length ≤ digitLimit) :
    IsInteger worth (.literal (.number ⟨digits, none, none⟩ h)) (Text.natOfDigits digits)
  | name {name : List Char} {m : Int} (h : IntegerText (worth (String.ofList name)) m) :
    IsInteger worth (.name name) m

section
variable {worth : String → String} {t : Tree Operand} {m : Int}

/-- An operand that is worth an integer has this integer as its value after its name is replaced. -/
theorem Operand.IsInteger.value_eq {a : Operand} (h : a.IsInteger worth m) :
    (a.replaceName worth).eval Constant.value = .ok (.number (.int m)) := by
  cases h with
  | literal _ _ hshort =>
    exact congrArg (Except.map Value.number) (numberOfNumeral_digits false hshort)
  | name h => exact Constant.eval_parenthesised_number h.number?_eq

/-- An operand that is worth an integer has a token. -/
theorem Operand.IsInteger.exists_token {a : Operand} (h : a.IsInteger worth m) :
    ∃ token, StandsFor worth a.lexeme token := by
  cases h with
  | literal _ _ hshort => exact ⟨_, .literal (.number (numberOfNumeral_digits false hshort))⟩
  | name h => exact ⟨_, .number h.number?_eq⟩

/-- What holds of all integers, operators and parentheses holds of all lexemes of an expression of
integers. -/
theorem Tree.Exact.forall_written {P : Lexeme → Prop} (h : t.Exact (Operand.IsInteger worth) m)
    (hoperand : ∀ (a : Operand) n, a.IsInteger worth n → P a.lexeme)
    (hoperator : ∀ op, P (.operator op))
    (hleft : P .leftParen) (hright : P .rightParen) : ∀ l ∈ t.written, P l := by
  induction h with
  | operand h => exact List.forall_mem_singleton.2 (hoperand _ _ h)
  | paren _ ih =>
    exact List.forall_mem_cons.2 ⟨hleft, List.forall_mem_append.2
      ⟨ih, List.forall_mem_singleton.2 hright⟩⟩
  | plus _ ih | minus _ ih => exact List.forall_mem_cons.2 ⟨hoperator _, ih⟩
  | binary _ _ _ ihl ihr =>
    exact List.forall_mem_append.2 ⟨ihl, List.forall_mem_cons.2 ⟨hoperator _, ihr⟩⟩

/-- Every lexeme of an expression of integers stands for a token. -/
theorem Tree.Exact.exists_tokens (h : t.Exact (Operand.IsInteger worth) m) :
    ∃ tokens, List.Forall₂ (StandsFor worth) t.written tokens := by
  have hall : ∀ l ∈ t.written, ∃ token, StandsFor worth l token :=
    h.forall_written (fun _ _ ha => ha.exists_token) (fun op => ⟨_, .literal (.operator op)⟩)
      ⟨_, .literal .leftParen⟩ ⟨_, .literal .rightParen⟩
  generalize t.written = ls at hall
  induction ls with
  | nil => exact ⟨[], .nil⟩
  | cons l ls ih =>
    obtain ⟨⟨token, htoken⟩, hrest⟩ := List.forall_mem_cons.1 hall
    obtain ⟨tokens, htokens⟩ := ih hrest
    exact ⟨token :: tokens, .cons htoken htokens⟩

/-- A tree that is no lone operand has several lexemes. -/
theorem Tree.several_written (h : ∀ a, t ≠ .operand a) : 1 < t.written.length := by
  have hpos (t : Tree Operand) : 0 < t.written.length := by
    cases t with
    | operand | paren | signed => exact Nat.succ_pos _
    | binary op left right => exact List.length_pos_iff.2 (by simp [written, spell])
  cases t with
  | operand a => exact absurd rfl (h a)
  | paren inner => simp [written, spell]
  | signed sign inner => exact Nat.succ_lt_succ (hpos inner)
  | binary op left right =>
    have := hpos left
    have hlength : (Tree.binary op left right).written.length =
        left.written.length + (right.written.length + 1) :=
      List.length_append
    omega

/-- A tree of integers has the exact integer as its value after names are replaced. -/
theorem Tree.Exact.eval_replaceNames (h : t.Exact (Operand.IsInteger worth) m) :
    (t.replaceNames worth).eval Constant.value = .ok (.number (.int m)) := by
  rw [Tree.replaceNames, Tree.eval_graft]
  exact h.eval_eq fun a n ha => ha.value_eq

/-- An expression of integers has one exact value. -/
theorem Tree.Exact.unique {n : Int} (h : t.Exact (Operand.IsInteger worth) m)
    (h' : t.Exact (Operand.IsInteger worth) n) : n = m := by
  have hboth := h.eval_replaceNames.symm.trans h'.eval_replaceNames
  cases hboth
  rfl

/-- The tokens of an expression of integers evaluate to the numeral of its value. -/
theorem Tree.Exact.evalToText_eq {depth : Nat} {tokens : List Token}
    (h : t.Exact (Operand.IsInteger worth) m) (hfits : t.Fits 0) (hnesting : t.nesting < depth)
    (hcompound : ∀ a, t ≠ .operand a) (hshort : (toString m.natAbs).length ≤ digitLimit)
    (htokens : List.Forall₂ (StandsFor worth) t.written tokens) :
    evalToText depth tokens = .ok (toString m) := by
  have hseveral : 1 < tokens.length := htokens.length_eq ▸ Tree.several_written hcompound
  rw [evalToText_of_written hfits hnesting htokens hseveral, h.eval_replaceNames]
  exact writeInt_eq hshort

end

end XmlMacros.Expr
