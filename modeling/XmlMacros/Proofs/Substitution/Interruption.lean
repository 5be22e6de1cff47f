import XmlMacros.Proofs.Expr.Inlining
import XmlMacros.Proofs.Substitution.Alone

/-!
# Expressions with closing braces

An expression may hold a closing brace in a quoted text, but in a text it ends at the first one
(`spans_braced_of_brace`). The brace separates lexemes: if all that stands in front of it can be
read, the brace is left over of the expression as a whole (`visibleLexemes_brace`). So of an
expression that has tokens, what stands in front of the brace has none, and the text that is this
expression cannot be evaluated (`HasTokens.not_gives_braced`).
-/

namespace XmlMacros.Substitution

open XmlMacros.Expr

theorem separates_brace : Separates '}' :=
  ⟨by decide, by decide, by decide +kernel, by decide⟩

/-- Behind a text of which nothing is left over, a brace is left over. -/
theorem visibleLexemes_brace {body : List Char} (h : (visibleLexemes body).2 = [])
    (rest : List Char) :
    (visibleLexemes (body ++ '}' :: rest)).2 = '}' :: rest := by
  have hbrace : lexemes ('}' :: rest) = ([], '}' :: rest) := lexemes_of_scan?_eq_none rfl
  show (lexemes (body ++ '}' :: rest)).2 = _
  rw [separates_brace.lexemes_append h, hbrace]

/-- The expression in a text ends at the first brace. -/
theorem spans_braced_of_brace {expr : String} {body rest : List Char}
    (hexpr : expr.toList = body ++ '}' :: rest) (hne : body ≠ []) (hbody : '}' ∉ body) :
    spans (braced expr).toList = .expression body :: spans (rest ++ ['}']) := by
  have hchars : (braced expr).toList = '$' :: '{' :: (body ++ '}' :: (rest ++ ['}'])) := by
    simp [braced, hexpr]
  rw [hchars]
  exact spans_of_scan? (Span.Starts.expression hne hbody _).scan?_eq

/-- An expression with a brace that has tokens cannot be evaluated in a text. -/
theorem HasTokens.not_gives_braced {ctx : Context} {room n : Nat} {expr : String}
    {tokens : List Token} (h : HasTokens ctx room expr tokens) (hbrace : '}' ∈ expr.toList)
    (value : String) : ¬ GivesWithin ctx n (braced expr) value := by
  intro hrun
  obtain ⟨body, rest, hexpr, hbody⟩ := List.eq_append_cons_of_mem hbrace
  have hleft : (visibleLexemes (body ++ '}' :: rest)).2 = [] := hexpr ▸ h.1
  have hinside : (visibleLexemes body).2 ≠ [] := by
    intro hinside
    rw [visibleLexemes_brace hinside] at hleft
    cases hleft
  have hne : body ≠ [] := by
    rintro rfl
    exact hinside (by rw [visibleLexemes_nil])
  -- The text would have a value only if what stands in front of the brace had one.
  rw [GivesWithin, evalTextFreely, evalTextWith_eq, spans_braced_of_brace hexpr hne hbody,
    evalSpans] at hrun
  obtain ⟨text, e, hspan, -⟩ := bind_ok (Prod.ext hrun rfl)
  have hgives : ExprGives ctx n (String.ofList body) text := congrArg Prod.fst hspan
  cases n with
  | zero => cases hgives
  | succ n =>
    obtain ⟨_, htokens, -⟩ := exprGives_iff.1 hgives
    exact hinside (by simpa using htokens.1)

end XmlMacros.Substitution
