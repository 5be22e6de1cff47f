import XmlMacros.Proofs.Expr.Integers
import XmlMacros.Proofs.Substitution.Braced

/-!
# Texts that are expressions of integers

A text that is an expression of integers evaluates to the numeral of its exact value, which is read
back as this value (`evalText_integer`). Names may stand for integers. How deeply the expression may
be nested, and how long numerals may be, is limited.
-/

namespace XmlMacros.Substitution

open XmlMacros.Expr XmlMacros.Decimal

/-! ## Characters -/

/-- An expression of integers holds no closing brace. -/
theorem not_mem_of_exact {worth : String → String} {t : Expr.Tree Operand} {m : Int}
    {cs : List Char}
    (hcut : visibleLexemes cs = (t.written, [])) (h : t.Exact (Operand.IsInteger worth) m) :
    '}' ∉ cs := by
  have hwritten : ∀ l ∈ t.written, (∃ name, l = .name name) ∨ '}' ∉ l.chars := by
    refine h.forall_written ?_ (fun op => .inr (by cases op <;> decide)) (.inr (by decide))
      (.inr (by decide))
    intro a n ha
    cases ha with
    | literal digits hformed =>
      refine .inr fun hbrace => ?_
      have hdigit := hformed.1 '}' (by
        simpa [Operand.lexeme, Literal.lexeme, Lexeme.chars, Numeral.chars, Numeral.digits]
          using hbrace)
      exact absurd hdigit (by decide)
    | name => exact .inl ⟨_, rfl⟩
  intro hbrace
  have hchars := lexemes_chars cs
  rw [show (lexemes cs).2 = [] from congrArg Prod.snd hcut, List.append_nil] at hchars
  rw [← hchars, List.mem_flatten] at hbrace
  obtain ⟨_, hmem, hbrace⟩ := hbrace
  obtain ⟨l, hl, rfl⟩ := List.mem_map.1 hmem
  obtain ⟨cs', rest, hscan⟩ := exists_scan?_of_mem hl
  rcases Lexeme.proper_of_scan? hscan with ⟨-, hblanks⟩ | ⟨hblank, -⟩
  · exact absurd (hblanks '}' hbrace) (by decide)
  · have hvisible : l ∈ t.written := by
      rw [← show (visibleLexemes cs).1 = t.written from congrArg Prod.fst hcut]
      exact List.mem_filter.2 ⟨hl, by simp [hblank]⟩
    rcases hwritten l hvisible with ⟨name, rfl⟩ | hother
    · exact not_mem_of_referable (referable_of_scan? hscan) hbrace
    · exact hother hbrace

/-! ## Texts -/

/-- Expressions of integers are exact. If an expression is written like a tree of integers, where
names stand for texts that are integers and nothing is divided by zero, the tree has an exact value;
the text of the expression evaluates to the numeral of this value, and that is read as the value
again. Lone operands are shown as they are written and not meant here; nesting and length are
limited. -/
theorem evalText_integer (ctx : Context) (expr : String) (worth : String → String)
    (t : Expr.Tree Operand) (hcut : visibleLexemes expr.toList = (t.written, [])) (hfits : t.Fits 0)
    (hnesting : t.nesting < ctx.limits.evaluation) (hcompound : ∀ a, t ≠ .operand a)
    (hnames : ∀ name, .name name ∈ t.written →
      NameGives ctx (ctx.limits.evaluation - 1) (String.ofList name) (worth (String.ofList name)))
    (hintegral : t.Integral (Operand.IsInteger worth)) :
    (∃ m, t.Exact (Operand.IsInteger worth) m) ∧
      (∀ m, t.Exact (Operand.IsInteger worth) m → (toString m.natAbs).length ≤ digitLimit →
        (evalText ctx (braced expr) .fresh).1 = .ok (toString m) ∧
          isNumber (toString m) = true ∧ number? (toString m) = some (.ok (.int m))) ∧
      ∀ a b r, Operator.Exact .remainder a b r →
        r.natAbs < b.natAbs ∧ (r = 0 ∨ r.sign = a.sign) := by
  refine ⟨hintegral.exists_exact, fun m hexact hshort => ?_, fun _ _ _ h => h.remainder_bounds⟩
  obtain ⟨tokens, htokens⟩ := hexact.exists_tokens
  have hread : number? (toString m) = some (.ok (.int m)) :=
    (integerText_toString hshort).number?_eq
  have hnonempty : expr.toList ≠ [] := by
    intro hempty
    rw [hempty, visibleLexemes_nil] at hcut
    have hseveral := Tree.several_written hcompound
    rw [← (Prod.mk.inj hcut).1] at hseveral
    exact absurd hseveral (by decide)
  refine ⟨?_, ?_, hread⟩
  · obtain ⟨room, hroom⟩ := Nat.exists_eq_succ_of_ne_zero (Nat.ne_zero_of_lt hnesting)
    rw [hroom, Nat.succ_sub_one] at hnames
    rw [hroom] at hnesting
    rw [evalText_ok_iff, Gives, hroom]
    exact .braced (not_mem_of_exact hcut hexact) hnonempty (by rw [hcut]; exact hnames)
      (by rw [hcut]) (by rw [hcut]; exact htokens)
      (hexact.evalToText_eq hfits hnesting hcompound hshort htokens)
  · have hsome : (number? (toString m)).isSome = true := Option.isSome_of_eq_some hread
    rwa [number?, Option.isSome_map] at hsome

/-- The tree of `-7%x`. -/
def remainderTree : Expr.Tree Operand :=
  .binary .remainder (.signed .minus (.operand (.literal (digitLiteral '7' rfl))))
    (.operand (.name ['x']))

/-- The remainder of a negative integer by a negative one is negative, which is that of
rounding down. -/
theorem evalText_integer_remainder :
    (evalText (contextOf "-3") (braced "-7%x") .fresh).1 = .ok "-1" := by
  have hseven : Operand.IsInteger (fun _ => "-3") (.literal (digitLiteral '7' rfl)) 7 :=
    .literal ['7'] _ (by decide)
  have hx : Operand.IsInteger (fun _ => "-3") (.name ['x']) (-3) :=
    .name (.negative ['3'] (List.forall_mem_singleton.2 (by decide)) (by decide) (by decide)
      (.inl rfl))
  have hexact : remainderTree.Exact (Operand.IsInteger fun _ => "-3") (-1) :=
    .binary (.minus (.operand hseven)) (.operand hx) (.remainder (-7) (by decide))
  have hnonzero : ¬ (Expr.Tree.operand (.name ['x'])).Exact (Operand.IsInteger fun _ => "-3") 0 :=
    fun hzero => absurd (Expr.Tree.Exact.unique (.operand hx) hzero) (by decide)
  obtain ⟨-, hvalue, -⟩ := evalText_integer (contextOf "-3") "-7%x" (fun _ => "-3") remainderTree
    (by decide +kernel) (by simp [remainderTree, Expr.Tree.Fits, Operator.level]) (by decide) nofun
    (by
      intro name hname
      have hx : name = ['x'] := by
        simpa [remainderTree, Expr.Tree.written, Expr.Tree.spell, operandSpelling, Operand.lexeme,
          digitLiteral, Literal.lexeme] using hname
      subst hx
      exact ⟨"-3", rfl, .of_not_mem (by decide)⟩)
    ⟨⟨7, hseven⟩, ⟨-3, hx⟩, nofun, nofun, fun _ => hnonzero⟩
  exact (hvalue (-1) hexact (by decide)).1

/-- The text of so many ones. -/
def ones (n : Nat) : String :=
  String.ofList (List.replicate n '1')

/-- A name that stands for an integer with too many digits has no token. -/
theorem ofText_ones {n : Nat} (h : digitLimit < n) :
    Token.ofText (ones n) = .error (.arithmetic (.numeralTooLong n)) := by
  have hdigits : ∀ c ∈ List.replicate n '1', Text.isDigit c = true := by
    intro c hc
    rw [(List.mem_replicate.1 hc).2]
    decide
  obtain ⟨n, rfl⟩ := Nat.exists_eq_succ_of_ne_zero (Nat.ne_zero_of_lt h)
  have hscan := numeral_scan?_digits hdigits (by simp) (.inl rfl)
  rw [List.append_nil, List.replicate_succ] at hscan
  have hsigned : signedNumeral? (ones (n + 1)) = some (false,
    ⟨List.replicate (n + 1) '1', none, none⟩) := by
    simp [signedNumeral?, ones, List.replicate_succ, hscan]
  have hlong : digitLimit < (Numeral.digits ⟨List.replicate (n + 1) '1', none, none⟩).length := by
    simpa [Numeral.digits] using h
  rw [Token.ofText, hsigned]
  simp only [Token.ofNumeral, numberOfNumeral, if_pos hlong]
  simp [Numeral.isInteger, Numeral.digits, Except.map]

/-- A product with a name that stands for an integer with too many digits has no value. -/
theorem evalExpr_product_of_ones {n : Nat} (h : digitLimit < n) (room : Nat) :
    ∃ stop, (evalExpr (contextOf (ones n)) (room + 1) "x*0" .fresh).1 = .error stop ∧
      stop.toFault.cause = .arithmetic (.numeralTooLong n) := by
  have hlexemes : lexemes "x*0".toList =
      ([.name ['x'], .operator .times, .number ⟨['0'], none, none⟩], []) := by
    decide +kernel
  have hplain : '$' ∉ (ones n).toList := by
    rw [ones, String.toList_ofList]
    intro hmem
    exact absurd (List.mem_replicate.1 hmem).2 (by decide)
  have hworth : IsWorth (contextOf (ones n)) (evalTextWith (contextOf (ones n))
      (evalExpr (contextOf (ones n)) room)) ["x*0"] "x" (ones n) := by
    refine ⟨ones n, rfl, fun uses => ⟨uses, ?_⟩⟩
    rw [evalTextWith_of_not_mem hplain]
    rfl
  obtain ⟨uses, hrun⟩ := substitute_of_isWorth hworth #[]
  rw [ofText_ones h] at hrun
  have htokens : tokenize (contextOf (ones n)) (evalTextWith (contextOf (ones n))
      (evalExpr (contextOf (ones n)) room)) "x*0" ⟨["x*0"], #[]⟩ =
      (.error (.fault { cause := .arithmetic (.numeralTooLong n) }), ⟨["x*0"], uses⟩) := by
    rw [tokenize, hlexemes]
    refine bind_of_error (bind_of_error ?_)
    rw [tokenOf, ← bind_pure_comp]
    exact bind_of_error hrun
  have hend := evalExpr_of_computeExpr (e := .fresh) List.not_mem_nil (bind_of_error htokens)
  exact ⟨_, congrArg Prod.fst hend, rfl⟩

theorem not_mem_enclosedName (n : Nat) : '}' ∉ (enclosedName n).toList := by
  simp [enclosedName, List.mem_replicate]

/-- A name in parentheses is written with some characters. -/
theorem enclosedName_ne_nil (n : Nat) : (enclosedName n).toList ≠ [] := by
  simp [enclosedName]

/-- Two limits cannot be left out: parentheses may be nested too deeply around a name that stands
for one, and a name may stand for an integer with too many digits even where it is multiplied by
zero. -/
theorem not_evalText_integer :
    (deepTree.Fits 0 ∧ visibleLexemes deepName.toList = (deepTree.written, []) ∧
      (∀ a, deepTree ≠ .operand a) ∧ NameGives (contextOf "1") 499 "x" "1" ∧
      deepTree.Integral (Operand.IsInteger fun _ => "1") ∧
      deepTree.Exact (Operand.IsInteger fun _ => "1") 1 ∧
      ∃ f, (evalText (contextOf "1") (braced deepName) .fresh).1 = .error f ∧
        f.cause = .arithmetic .nestingTooDeep) ∧
    ∃ f, (evalText (contextOf (ones (digitLimit + 1))) (braced "x*0") .fresh).1 = .error f ∧
      f.cause = .arithmetic (.numeralTooLong (digitLimit + 1)) := by
  have hone : Operand.IsInteger (fun _ => "1") (.name ['x']) 1 :=
    .name (.positive ['1'] (List.forall_mem_singleton.2 (by decide)) (by decide) (by decide)
      (.inl rfl))
  have hfits : deepTree.Fits 0 := by
    rw [deepTree, Expr.Tree.fits_enclosed]
    trivial
  have hcompound (a : Operand) : deepTree ≠ .operand a := by
    rw [deepTree]
    exact Expr.Tree.enclosed_ne_operand (by decide) _ a
  have hintegral : deepTree.Integral (Operand.IsInteger fun _ => "1") := by
    rw [deepTree, Expr.Tree.integral_enclosed]
    exact ⟨1, hone⟩
  have hexact : deepTree.Exact (Operand.IsInteger fun _ => "1") 1 := by
    rw [deepTree]
    exact Expr.Tree.Exact.enclosed (.operand hone) 500
  have hgives : NameGives (contextOf "1") 499 "x" "1" := ⟨"1", rfl, .of_not_mem (by decide)⟩
  refine ⟨⟨hfits, visibleLexemes_deepName, hcompound, hgives, hintegral, hexact, ?_⟩, ?_⟩
  · obtain ⟨e₁, hrun⟩ := tokenize_deepName (evalExpr (contextOf "1") 499)
    obtain ⟨stop, hstop, hcause⟩ := evalExpr_of_evalToText_error (e := .fresh) List.not_mem_nil hrun
      (evalToText_enclosed (by decide) _)
    exact ⟨_, evalText_braced_of_error (not_mem_enclosedName 500) (enclosedName_ne_nil 500)
      (congrArg Prod.fst hstop), hcause⟩
  · obtain ⟨stop, hstop, hcause⟩ :=
      evalExpr_product_of_ones (Nat.lt_succ_self digitLimit) 499
    exact ⟨_, evalText_braced_of_error (by decide) (by decide) hstop, hcause⟩

end XmlMacros.Substitution
