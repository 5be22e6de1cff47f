import XmlMacros.Proofs.Substitution.Deferral
import XmlMacros.Proofs.Substitution.Names

/-!
# Texts that are one expression

A text may be one expression in braces and nothing else (`braced`). What it is worth follows from
the tokens of the expression (`GivesWithin.braced`), where the names in it have less room than the
text. If the expression is one name, its text is worth what the name is worth
(`GivesWithin.braced_name`).
-/

namespace XmlMacros.Substitution

open XmlMacros.Expr

/-- The text that is one expression. -/
def braced (expr : String) : String :=
  "$\x7b" ++ expr ++ "\x7d"

section
variable {ctx : Context} {expr : String}

theorem spans_braced (hbrace : '}' ∉ expr.toList) (hne : expr.toList ≠ []) :
    spans (braced expr).toList = [.expression expr.toList] := by
  have hbody : ∀ c ∈ expr.toList, (c != '}') = true := by
    intro c hc
    rw [bne_iff_ne]
    rintro rfl
    exact hbrace hc
  have hscan : scanBody? '}' (expr.toList ++ ['}']) = some (expr.toList, []) := by
    rw [scanBody?, Text.dropWhile_append_of_boundary hbody (by rintro c ⟨⟩; rfl),
      Text.takeWhile_append_of_boundary hbody (by rintro c ⟨⟩; rfl)]
    simp [hne]
  have hspan : Span.scan? ('$' :: '{' :: (expr.toList ++ ['}'])) =
      some (.expression expr.toList, []) := by
    simp [Span.scan?, scanDollar, hscan]
  have hchars : (braced expr).toList = '$' :: '{' :: (expr.toList ++ ['}']) := by
    simp [braced]
  rw [hchars, spans_of_scan? hspan, spans_nil]

/-- Such a text evaluates to what its expression evaluates to. -/
theorem evalTextWith_braced (hbrace : '}' ∉ expr.toList) (hne : expr.toList ≠ [])
    (f : String → EvalM String) : evalTextWith ctx f (braced expr) = f expr := by
  rw [evalTextWith_eq, spans_braced hbrace hne]
  simp [evalSpans, evalSpan]

/-- Such a text fails where its expression does. -/
theorem evalText_braced_of_error (hbrace : '}' ∉ expr.toList) (hne : expr.toList ≠ []) {stop : Stop}
    (h : (evalExpr ctx ctx.limits.evaluation expr .fresh).1 = .error stop) :
    (evalText ctx (braced expr) .fresh).1 = .error stop.toFault := by
  rw [evalText_apply, evalTextWithin, evalTextWith_braced hbrace hne, h]
  rfl

/-- Without the guard too, the expressions under way are the same after an evaluation. -/
theorem evalTextFreely_mirrors_at (room : Nat) (text : String) (active : List String) :
    Mirrors (BothAt active) (evalTextFreely ctx room text) (evalTextFreely ctx room text) := by
  induction room generalizing text with
  | zero => exact .evalTextWith (fun _ _ _ => id) (fun _ => .throw _ _) text
  | succ room ih =>
    have htexts : TextsMirror (BothAt active) ctx ctx (evalTextFreely ctx room)
        (evalTextFreely ctx room) := fun name text hname => ⟨text, hname, ih text⟩
    exact .evalTextWith (fun _ _ _ => id)
      (fun expr => (Mirrors.computeExpr (Nat.le_refl _) htexts expr).located expr) text

/-- The name stands for a text that is worth the value, in so much room. -/
def NameGives (ctx : Context) (room : Nat) (name value : String) : Prop :=
  ∃ text, ctx.scopes.lookup? name = some (.text text) ∧ GivesWithin ctx room text value

variable {room : Nat}

/-- What a name stands for it is worth where nothing is under way. -/
theorem NameGives.isWorth {name value : String} (h : NameGives ctx room name value) :
    IsWorth ctx (evalTextFreely ctx room) [] name value := by
  obtain ⟨text, hlookup, hgives⟩ := h
  refine ⟨text, hlookup, fun uses => ?_⟩
  have hrun := hgives.run (Nat.le_refl room) ⟨[], uses⟩
  obtain ⟨⟨_, uses'⟩, hrun, -, rfl⟩ := evalTextFreely_mirrors_at room text [] ⟨[], uses⟩ ⟨[], uses⟩
    value _ ⟨rfl, rfl⟩ (Prod.ext hrun rfl)
  exact ⟨uses', hrun⟩

/-- A text that is one expression is worth what the tokens of the expression evaluate to. -/
theorem GivesWithin.braced {worth : String → String} {tokens : List Token} {value : String}
    (hbrace : '}' ∉ expr.toList) (hne : expr.toList ≠ [])
    (hnames : ∀ name, .name name ∈ (visibleLexemes expr.toList).1 →
      NameGives ctx room (String.ofList name) (worth (String.ofList name)))
    (hleft : (visibleLexemes expr.toList).2 = [])
    (hstands : List.Forall₂ (StandsFor worth) (visibleLexemes expr.toList).1 tokens)
    (hvalue : evalToText (room + 1) tokens = .ok value) :
    GivesWithin ctx (room + 1) (Substitution.braced expr) value := by
  obtain ⟨uses, htokens⟩ := tokenize_of_standsFor
    (fun name hname => (hnames name hname).isWorth) hleft hstands #[]
  have hrun : computeExpr ctx (room + 1) (evalTextFreely ctx room) expr .fresh =
      (.ok value, ⟨[], uses⟩) := by
    refine (bind_of_ok htokens).trans ?_
    rw [valueWithin, hvalue]
    rfl
  rw [GivesWithin, evalTextFreely, evalTextWith_braced hbrace hne, evalExprFreely, located_apply]
  show (computeExpr ctx (room + 1) (evalTextFreely ctx room) expr .fresh).1.mapError _ = _
  rw [hrun]
  rfl

end

/-! ## References -/

/-- A name holds no closing brace. -/
theorem not_mem_of_referable {name : List Char} (h : Referable name) : '}' ∉ name := by
  obtain ⟨c, cs, rfl, hc, hcs⟩ := h
  intro hmem
  rcases List.mem_cons.1 hmem with rfl | hmem
  · exact absurd hc (by decide)
  · exact absurd (hcs _ hmem) (by decide +kernel)

/-- A lone number or text is shown as it is written. -/
theorem evalToText_ofText {depth : Nat} {value : String} {token : Token} (hdepth : 0 < depth)
    (h : Token.ofText value = .ok token) : evalToText depth [token] = .ok value := by
  rcases Token.ofText_cases h with ⟨x, -, rfl⟩ | ⟨-, rfl⟩
  · rfl
  · exact evalToText_tokens (t := .operand (.text value, value)) trivial hdepth

/-- A reference to a name is worth what the name is worth, to the letter, also where it is a number.
It takes more room than the name. -/
theorem GivesWithin.braced_name {ctx : Context} {room : Nat} {name value : String} {token : Token}
    (hname : Referable name.toList) (hgives : NameGives ctx room name value)
    (htoken : Token.ofText value = .ok token) :
    GivesWithin ctx (room + 1) (Substitution.braced name) value := by
  have hcut : visibleLexemes name.toList = ([.name name.toList], []) := visibleLexemes_name hname
  have hstands : List.Forall₂ (StandsFor fun _ => value) (visibleLexemes name.toList).1 [token] := by
    rw [hcut]
    exact .cons (.of_ofText htoken) .nil
  refine GivesWithin.braced (not_mem_of_referable hname) ?_ ?_ (congrArg Prod.snd hcut) hstands
    (evalToText_ofText (Nat.succ_pos room) htoken)
  · obtain ⟨c, cs, hchars, -⟩ := hname
    rw [hchars]
    exact List.cons_ne_nil c cs
  · intro name' hname'
    rw [hcut, List.mem_singleton] at hname'
    cases hname'
    rwa [String.ofList_toList]

end XmlMacros.Substitution
