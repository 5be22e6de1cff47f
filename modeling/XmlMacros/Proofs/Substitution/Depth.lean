import XmlMacros.Proofs.Expr.Integers
import XmlMacros.Proofs.Expr.Parentheses
import XmlMacros.Proofs.Substitution.Alone

/-!
# Deep expressions

An expression of integers that is not nested too deeply has its exact value (`valueAlone_of_exact`,
`evalAlone_of_exact`), and one that begins with too many parentheses and minus signs has none
(`evalAlone_ne_ok_of_deep`). Both are seen at an operand behind minus signs and in parentheses
(`sunken`).
-/

namespace XmlMacros.Substitution

open XmlMacros.Expr XmlMacros.Decimal

/-! ## Expressions of integers -/

section
variable {ctx : Context} {expr : String} {worth : String → String} {t : Expr.Tree Operand} {m : Int}
  (hcut : visibleLexemes expr.toList = (t.written, [])) (hfits : t.Fits 0)
  (hnesting : t.nesting < ctx.limits.evaluation) (hexact : t.Exact (Operand.IsInteger worth) m)

include hcut hfits hnesting hexact

/-- The value of an expression of integers without names is the exact one. -/
theorem valueAlone_of_exact (hnames : ∀ name, .name name ∉ t.written) :
    valueAlone ctx expr = .ok (.number (.int m)) := by
  obtain ⟨tokens, hstands⟩ := hexact.exists_tokens
  obtain ⟨t', halike, rfl⟩ := exists_tree_of_written hstands
  have hvalue : evalTokens ctx.limits.evaluation t'.tokens = .ok (.number (.int m)) := by
    rw [evalTokens_tokens ((halike.fits_iff 0).1 hfits) (halike.nesting_eq ▸ hnesting),
      halike.value_eq_replaceNames, hexact.eval_replaceNames]
  have hleft : (visibleLexemes expr.toList).2 = [] := congrArg Prod.snd hcut
  have hwritten : (visibleLexemes expr.toList).1 = t.written := congrArg Prod.fst hcut
  rw [← hwritten] at hstands hnames
  have hrun (f : String → EvalM String) :
      ∃ uses, tokenize ctx f expr ⟨[expr], #[]⟩ = (.ok t'.tokens, ⟨[expr], uses⟩) :=
    tokenize_of_standsFor (fun name hname => absurd hname (hnames name)) hleft hstands #[]
  obtain ⟨uses, hrun⟩ := hrun (evalTextWith ctx (evalExpr ctx (ctx.limits.evaluation - 1)))
  unfold valueAlone
  dsimp only
  rw [bind_of_ok hrun, hvalue]
  rfl

/-- An expression of integers evaluates to the numeral of its exact value. -/
theorem evalAlone_of_exact (hcompound : ∀ a, t ≠ .operand a)
    (hshort : (toString m.natAbs).length ≤ digitLimit)
    (hnames : ∀ name, .name name ∈ t.written →
      NameGives ctx (ctx.limits.evaluation - 1) (String.ofList name) (worth (String.ofList name))) :
    evalAlone ctx expr = .ok (toString m) := by
  obtain ⟨room, hroom⟩ := Nat.exists_eq_succ_of_ne_zero (Nat.ne_zero_of_lt hnesting)
  rw [hroom, Nat.succ_sub_one] at hnames
  rw [hroom] at hnesting
  obtain ⟨tokens, hstands⟩ := hexact.exists_tokens
  refine (evalAlone_ok_iff hroom).2 ⟨tokens, ⟨congrArg Prod.snd hcut, ?_⟩,
    hexact.evalToText_eq hfits hnesting hcompound hshort hstands⟩
  rw [hcut]
  exact stands_of_standsFor hnames hstands

end

/-! ## Nesting -/

/-- An expression that begins with too many parentheses and minus signs evaluates to nothing. -/
theorem evalAlone_ne_ok_of_deep {ctx : Context} {expr : String} {front rest : List Lexeme}
    (hcut : visibleLexemes expr.toList = (front ++ rest, []))
    (hfront : ∀ l ∈ front, l = .leftParen ∨ l = .operator .minus)
    (hlong : ctx.limits.evaluation ≤ front.length) (text : String) :
    evalAlone ctx expr ≠ .ok text := by
  intro h
  obtain ⟨room, hroom⟩ := exists_room_of_evalAlone h
  rw [hroom] at hlong
  obtain ⟨tokens, ⟨-, hstands⟩, htext⟩ := (evalAlone_ok_iff hroom).1 h
  obtain ⟨worth, hworth⟩ := exists_worth ctx room
  rw [hcut] at hstands
  obtain ⟨t, -, hnesting, hwritten⟩ := exists_written_of_evalToText
    (spaced_of_visibleLexemes hcut).2
    (standsFor_of_stands hworth hstands).2 htext
  have hdeep : front.length ≤ t.nesting :=
    Expr.Tree.length_le_nesting hfront ((List.append_nil _).trans hwritten)
  exact absurd (Nat.lt_of_le_of_lt (Nat.le_trans hlong hdeep) hnesting) (Nat.lt_irrefl _)

/-- The text of an operand behind so many pairs of minus signs and in so many parentheses. -/
def sunken (n m : Nat) (c : Char) : String :=
  String.ofList (List.replicate (2 * n) '-' ++ (List.replicate m '(' ++ c :: List.replicate m ')'))

/-- The tree of an operand behind so many pairs of minus signs and in so many parentheses. -/
def sunkenTree (n m : Nat) (a : Operand) : Expr.Tree Operand :=
  ((Expr.Tree.operand a).enclosed m).negated (2 * n)

/-- The tree of a sunken operand is written with signs, then opening parentheses, the operand and
closing ones. -/
theorem written_sunkenTree (n m : Nat) (a : Operand) : (sunkenTree n m a).written =
    List.replicate (2 * n) (.operator .minus) ++
      (List.replicate m .leftParen ++ a.lexeme :: List.replicate m .rightParen) := by
  rw [sunkenTree, Expr.Tree.written, Expr.Tree.spell_negated, Expr.Tree.spell_enclosed]
  rfl

/-- So the text of a sunken operand is cut into what its tree is written as, where the operand is
scanned before a parenthesis. -/
theorem visibleLexemes_sunken {m : Nat} {c : Char} {a : Operand} (n : Nat)
    (hscan : Lexeme.scan? (c :: List.replicate m ')') = some (a.lexeme, List.replicate m ')')) :
    visibleLexemes (sunken n m c).toList = ((sunkenTree n m a).written, []) := by
  have hblank : a.lexeme.isBlank = false := by
    rcases a with ⟨_ | _⟩ | _ <;> rfl
  rw [sunken, String.toList_ofList, visibleLexemes_replicate (Lexeme.scan?_of_mark (by decide)) rfl,
    visibleLexemes_enclosed hscan hblank, written_sunkenTree]

/-- A name is one lexeme in parentheses. -/
theorem visibleLexemes_sunken_name (n m : Nat) :
    visibleLexemes (sunken n m 'x').toList = ((sunkenTree n m (.name ['x'])).written, []) :=
  visibleLexemes_sunken n (scan?_x_rightParens m)

/-- And so is a digit. -/
theorem visibleLexemes_sunken_one (n m : Nat) : visibleLexemes (sunken n m '1').toList =
    ((sunkenTree n m (.literal (digitLiteral '1' rfl))).written, []) := by
  have hends : NumeralEnds (List.replicate m ')') := by
    intro c hc
    obtain ⟨-, rfl⟩ := List.mem_replicate.1 (List.mem_of_mem_head? hc)
    decide
  exact visibleLexemes_sunken n
    (Lexeme.scan?_append (Literal.proper (digitLiteral '1' rfl)) fun _ => hends)

theorem not_mem_sunken_one (n m : Nat) : '}' ∉ (sunken n m '1').toList := by
  simp [sunken, List.mem_replicate]

/-- A sunken tree needs no more parentheses than it has. -/
theorem fits_sunkenTree (n m : Nat) (a : Operand) : (sunkenTree n m a).Fits 0 := by
  refine Expr.Tree.fits_negated (fun k => ?_) (2 * n) 0
  cases m with
  | zero => trivial
  | succ m => exact (Expr.Tree.fits_enclosed m _).2 trivial

/-- Each pair of parentheses is one level, and so is each sign, of which there are two for one of
the first number. -/
theorem nesting_sunkenTree (n m : Nat) (a : Operand) : (sunkenTree n m a).nesting = m + 2 * n := by
  rw [sunkenTree, Expr.Tree.nesting_negated, Expr.Tree.nesting_enclosed]
  exact congrArg (· + 2 * n) (Nat.zero_add m)

/-- In parentheses it is no lone operand. -/
theorem sunkenTree_ne_operand {m : Nat} (hm : 0 < m) (n : Nat) (a b : Operand) :
    sunkenTree n m a ≠ .operand b := by
  cases n with
  | zero => exact Expr.Tree.enclosed_ne_operand hm _ b
  | succ n => rintro ⟨⟩

/-- Such an operand is as good as the operand alone. -/
theorem exact_sunkenTree {worth : String → String} {a : Operand} {k : Int} (h : a.IsInteger worth k)
    (n m : Nat) : (sunkenTree n m a).Exact (Operand.IsInteger worth) k :=
  (Expr.Tree.Exact.enclosed (.operand h) m).negated n

section
variable {ctx : Context} {n m : Nat} (hm : 0 < m) (hnesting : m + 2 * n < ctx.limits.evaluation)

include hm hnesting

/-- A sunken number is computed, if it is not sunken too deeply. -/
theorem sunken_one : valueAlone ctx (sunken n m '1') = .ok (.number (.int 1)) ∧
    evalAlone ctx (sunken n m '1') = .ok "1" := by
  have hone : Operand.IsInteger (fun _ => "") (.literal (digitLiteral '1' rfl)) 1 :=
    .literal ['1'] _ (by decide)
  have hnames (name : List Char) :
      .name name ∉ (sunkenTree n m (.literal (digitLiteral '1' rfl))).written := by
    simp [written_sunkenTree, List.mem_replicate, Operand.lexeme, Literal.lexeme, digitLiteral]
  rw [← nesting_sunkenTree n m (.literal (digitLiteral '1' rfl))] at hnesting
  exact ⟨valueAlone_of_exact (visibleLexemes_sunken_one n m) (fits_sunkenTree n m _) hnesting
      (exact_sunkenTree hone n m) hnames,
    evalAlone_of_exact (visibleLexemes_sunken_one n m) (fits_sunkenTree n m _) hnesting
      (exact_sunkenTree hone n m) (sunkenTree_ne_operand hm n _) (by decide)
      fun name hname => absurd hname (hnames name)⟩

/-- And so is a name that is worth the number. -/
theorem evalAlone_sunken_name (hgives : NameGives ctx (ctx.limits.evaluation - 1) "x" "1") :
    evalAlone ctx (sunken n m 'x') = .ok "1" := by
  have hone : Operand.IsInteger (fun _ => "1") (.name ['x']) 1 :=
    .name (.positive ['1'] (List.forall_mem_singleton.2 (by decide)) (by decide) (by decide)
      (.inl rfl))
  rw [← nesting_sunkenTree n m (.name ['x'])] at hnesting
  refine evalAlone_of_exact (visibleLexemes_sunken_name n m) (fits_sunkenTree n m _) hnesting
    (exact_sunkenTree hone n m) (sunkenTree_ne_operand hm n _) (by decide) fun name hname => ?_
  have hx : name = ['x'] := by
    simpa [written_sunkenTree, List.mem_replicate, Operand.lexeme] using hname
  subst hx
  exact hgives

end

end XmlMacros.Substitution
