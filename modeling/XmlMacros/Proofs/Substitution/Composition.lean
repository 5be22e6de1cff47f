import XmlMacros.Proofs.Substitution.Cutting
import XmlMacros.Proofs.Substitution.Cycle

/-!
# Evaluating one text behind another

The evaluation of a text in two parts is that of the first part and then that of the second
(`evalText_append`). The cut must not fall where a dollar could reach over it:

* the first part does not end in a dollar: `$` and `{x}` are two texts, `${x}` is a live span;
* no dollar of the first part stands alone in front of a bracket: `${x` and `}` are two texts, the
  brackets of which close only together.

With both, every span of the first part is a span of the whole, except that plain text at its end
goes on with plain text at the start of the second part (`evalSpans_spans_append`). What evaluates
the expressions can be anything. The second part is evaluated with the uses of the first one on
record; that these do not matter is `evalExpr_steadyFrom`, for every table of commands.
-/

namespace XmlMacros.Substitution

variable {ctx : Context}

/-! ## Spans of two texts -/

section
variable {expr : String → EvalM String} {nested : List Char → EvalM String}

/-- The plain text at the start of a text can be taken off. -/
theorem evalSpans_spanPlain (cs : List Char) :
    evalSpans ctx expr nested (spans cs) = do
      return String.ofList (spanPlain cs).1 ++
        (← evalSpans ctx expr nested (spans (spanPlain cs).2)) := by
  cases cs with
  | nil => rw [spanPlain, spans_nil]; rfl
  | cons c cs =>
    by_cases hplain : c ≠ '$' ∨ opensBracket cs = false
    · rw [spans_of_scan? (Span.Starts.plain hplain).scan?_eq, spanPlain_cons hplain, evalSpans,
        evalSpan,
        pure_bind]
    · rw [not_or, not_not, Bool.not_eq_false] at hplain
      obtain ⟨rfl, hopens⟩ := hplain
      rw [spanPlain_of_opens hopens]
      simp only [String.ofList_nil, String.empty_append, bind_pure]

/-- The induction is on the spans of the first text. Only the last of them can be another one in the
whole: plain text up to the end. -/
theorem evalSpans_spans_append {cs : List Char} (hlast : cs.getLast? ≠ some '$')
    (hdollar : .dollar ∉ spans cs) (more : List Char) :
    evalSpans ctx expr nested (spans (cs ++ more)) = do
      return (← evalSpans ctx expr nested (spans cs)) ++ (← evalSpans ctx expr nested (spans more)) := by
  by_cases hne : cs = []
  · subst hne
    simp only [List.nil_append, spans_nil, evalSpans, pure_bind, String.empty_append, bind_pure]
  · obtain ⟨s, rest, hstarts⟩ := Span.exists_starts hne
    have hscan := hstarts.scan?_eq
    rw [spans_of_scan? hscan] at hdollar ⊢
    obtain ⟨hs, hdollar⟩ := not_or.1 (mt List.mem_cons.2 hdollar)
    by_cases hgoesOn : rest ≠ [] ∨ ∀ run, s ≠ .plain run
    · have hrest : rest.getLast? ≠ some '$' := by
        rw [(Span.scan?_eq_some hscan).1, List.getLast?_append] at hlast
        intro h
        exact hlast (by rw [h]; rfl)
      have happend := hstarts.append (Ne.symm hs) hgoesOn hlast more
      have ih := evalSpans_spans_append hrest hdollar more
      rw [spans_of_scan? happend.scan?_eq, evalSpans, evalSpans, ih]
      simp only [bind_assoc, pure_bind, String.append_assoc]
    · -- The text is plain to its end.
      rw [not_or, not_not, not_forall] at hgoesOn
      obtain ⟨rfl, run, hrun⟩ := hgoesOn
      obtain rfl := not_not.1 hrun
      generalize hend : ([] : List Char) = rest at hstarts
      cases hstarts with
      | @plain c cs hplain =>
        have hspan := spanPlain_append (getLast?_ne_of_cons hlast) more
        rw [if_pos hend.symm] at hspan
        have hwhole := Span.Starts.plain (plain_append hplain hlast more)
        have hcs := spanPlain_eq cs
        rw [← hend, List.append_nil] at hcs
        rw [List.cons_append, spans_of_scan? hwhole.scan?_eq, hspan, ← hend, spans_nil,
          evalSpans_spanPlain more, hcs]
        simp only [evalSpans, evalSpan, bind_assoc, pure_bind, String.append_empty,
          ← List.cons_append, String.ofList_append, String.append_assoc]
termination_by cs.length
decreasing_by exact Span.length_lt_of_scan? hscan

end

/-- Whatever evaluates the expressions of two texts, one behind the other: the first text is
evaluated and then the second. -/
theorem evalTextWith_append {t₁ t₂ : String} (hlast : t₁.toList.getLast? ≠ some '$')
    (hdollar : .dollar ∉ spans t₁.toList) (expr : String → EvalM String) :
    evalTextWith ctx expr (t₁ ++ t₂) = do
      return (← evalTextWith ctx expr t₁) ++ (← evalTextWith ctx expr t₂) := by
  rw [evalTextWith_eq, evalTextWith_eq ctx expr t₁, evalTextWith_eq ctx expr t₂,
    String.toList_append,
    evalSpans_spans_append hlast hdollar]

/-! ## What was used before -/

/-- From the expressions under way the evaluation ends with the same result and the same uses,
whatever was used before, and leaves the same under way. -/
def SteadyFrom (active : List String) {α : Type} (x : EvalM α) : Prop :=
  ∃ r used, ∀ before, x ⟨active, before⟩ = (r, ⟨active, before ++ used⟩)

section
variable {active : List String}

/-- An evaluation that stops does so whatever was used before. -/
theorem SteadyFrom.throw {α : Type} (stop : Stop) : SteadyFrom active (throw stop : EvalM α) :=
  ⟨.error stop, #[], fun before => by rw [Array.append_empty]; rfl⟩

/-- Not depending on what was used before goes through all steps of an evaluation. -/
theorem SteadyFrom.compatible (active : List String) :
    Compatible fun {α} (x _ : EvalM α) => SteadyFrom active x where
  pure a := ⟨.ok a, #[], fun before => by rw [Array.append_empty]; rfl⟩
  bind {_ _ x _ f _} := by
    rintro ⟨r, used, hx⟩ hf
    rcases r with stop | a
    · exact ⟨.error stop, used, fun before => bind_of_error (hx before)⟩
    · obtain ⟨r, used', hf⟩ := hf a
      refine ⟨r, used ++ used', fun before => ?_⟩
      rw [bind_of_ok (hx before), ← Array.append_assoc]
      exact hf _
  fault f _ := .throw _
  use name value := ⟨.ok (), #[(name, value)], fun _ => rfl⟩
  located expr x _ := by
    rintro ⟨r, used, hx⟩
    refine ⟨r.mapError (·.orSuffix ("when evaluating expression '" ++ expr ++ "'")), used,
      fun before => ?_⟩
    rw [located_apply, hx before]

/-- Commands do not see what was used, so their faults do not depend on it. -/
theorem SteadyFrom.commandsRespect :
    ctx.CommandsRespect fun {α} (x _ : EvalM α) => SteadyFrom active x :=
  fun _ _ _ _ _ _ => .throw _

/-- An evaluation with an expression under way takes it back at its end. -/
theorem SteadyFrom.whileActive {α : Type} {expr : String} {x : EvalM α}
    (h : SteadyFrom (active ++ [expr]) x) : SteadyFrom active (whileActive expr x) := by
  obtain ⟨r, used, hx⟩ := h
  refine ⟨r, used, fun before => ?_⟩
  unfold Substitution.whileActive
  simp only [hx before, List.dropLast_concat]

/-- What an expression evaluates to depends on what is under way, but not on what was
used before. -/
theorem evalExpr_steadyFrom (ctx : Context) (room : Nat) (active : List String) (expr : String) :
    SteadyFrom active (evalExpr ctx room expr) := by
  induction room generalizing active expr with
  | zero => exact .throw _
  | succ room ih =>
    by_cases hmem : expr ∈ active
    · refine ⟨.error (.fault { cause := .cyclicReference (active ++ [expr]) }), #[], fun before => ?_⟩
      rw [evalExpr_of_mem (e := ⟨active, before⟩) hmem, Array.append_empty]
    · have hR := SteadyFrom.compatible (active ++ [expr])
      have hinner : SteadyFrom (active ++ [expr])
          (located expr (computeExpr ctx (room + 1) (evalTextWith ctx (evalExpr ctx room)) expr)) :=
        hR.locatedExpr_of (g := pure) (m := room + 1) SteadyFrom.commandsRespect
          (hR.valueWithin (.throw _) (room + 1)) (fun _ _ _ expr' _ => ih (active ++ [expr]) expr') expr
      obtain ⟨r, used, hruns⟩ := hinner.whileActive
      refine ⟨r, used, fun before => ?_⟩
      rw [evalExpr_of_not_mem (e := ⟨active, before⟩) hmem]
      exact hruns before

end

/-- What a text evaluates to does not depend on what was used before. -/
theorem evalTextWithin_steadyFrom (ctx : Context) (room : Nat) (active : List String)
    (text : String) :
    SteadyFrom active (evalTextWithin ctx room text) :=
  (SteadyFrom.compatible active).evalTextWith_of (g := pure) SteadyFrom.commandsRespect
    fun expr _ => evalExpr_steadyFrom ctx room active expr

/-! ## Two texts -/

/-- Substitution is compositional, with any properties and commands. Two texts one behind the other
fail as the first one does if it fails, else as the second one does, and otherwise evaluate to the
texts of both, one behind the other; nothing else is different if what evaluates the expressions is
told apart. The first text must not end in a dollar, and no dollar of it may stand alone in front of
a bracket. -/
theorem evalText_append (ctx : Context) {t₁ t₂ : String} (hlast : t₁.toList.getLast? ≠ some '$')
    (hdollar : .dollar ∉ spans t₁.toList) :
    (∀ expr, evalTextWith ctx expr (t₁ ++ t₂) = do
      return (← evalTextWith ctx expr t₁) ++ (← evalTextWith ctx expr t₂)) ∧
    (evalText ctx (t₁ ++ t₂) .fresh).1 = do
      return (← (evalText ctx t₁ .fresh).1) ++ (← (evalText ctx t₂ .fresh).1) := by
  refine ⟨evalTextWith_append hlast hdollar, ?_⟩
  obtain ⟨r₁, used₁, hends₁⟩ := evalTextWithin_steadyFrom ctx ctx.limits.evaluation [] t₁
  obtain ⟨r₂, used₂, hends₂⟩ := evalTextWithin_steadyFrom ctx ctx.limits.evaluation [] t₂
  have happend : evalTextWithin ctx ctx.limits.evaluation (t₁ ++ t₂) = do
      return (← evalTextWithin ctx ctx.limits.evaluation t₁) ++
        (← evalTextWithin ctx ctx.limits.evaluation t₂) :=
    evalTextWith_append hlast hdollar _
  rw [evalText_apply, evalText_apply, evalText_apply, happend, Evaluation.fresh]
  rw [hends₁ #[], hends₂ #[], bind_apply, hends₁ #[]]
  rcases r₁ with stop | a
  · rfl
  · dsimp only
    rw [bind_apply, hends₂]
    rcases r₂ with stop | b <;> rfl

/-- A text that has a value stands in front of one that fails with a cycle, and the whole fails as
the second one does. -/
theorem evalText_append_cyclic :
    "$$\x7bx ${1+1}".toList.getLast? ≠ some '$' ∧ .dollar ∉ spans "$$\x7bx ${1+1}".toList ∧
      (evalText mutualContext "$$\x7bx ${1+1}" .fresh).1 = .ok "$\x7bx 2" ∧
      (evalText mutualContext ("$$\x7bx ${1+1}" ++ "\x7d${a}") .fresh).1 =
        (evalText mutualContext "\x7d${a}" .fresh).1 := by
  have hlast : "$$\x7bx ${1+1}".toList.getLast? ≠ some '$' := by decide
  have hdollar : .dollar ∉ spans "$$\x7bx ${1+1}".toList := by decide +kernel
  have hfirst : (evalText mutualContext "$$\x7bx ${1+1}" .fresh).1 = .ok "$\x7bx 2" := by
    decide +kernel
  refine ⟨hlast, hdollar, hfirst, ?_⟩
  rw [(evalText_append mutualContext hlast hdollar).2, hfirst]
  decide +kernel

end XmlMacros.Substitution
