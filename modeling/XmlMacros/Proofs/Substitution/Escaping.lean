import XmlMacros.Proofs.Substitution.Cutting
import XmlMacros.Proofs.Substitution.Relation

/-!
# Escaping a text

Every text can be written so that its evaluation gives it back and looks at nothing: one dollar more
in every run of dollars in front of an opening bracket (`escapeDollars`) makes every such run an
escape, and an escape stands for its run with one dollar less. Runs of a single dollar become
escapes as well, whether or not a live span started there.
-/

namespace XmlMacros.Substitution

/-- Whether the text starts with an opening bracket. -/
def startsOpening (cs : List Char) : Bool :=
  cs.head?.any fun c => c == '{' || c == '('

/-- A text with one dollar more in every run of dollars in front of an opening bracket. The dollar
is put behind the last one of the run. -/
def escapeDollars : List Char → List Char
  | [] => []
  | c :: cs =>
    if c == '$' && startsOpening cs then '$' :: '$' :: escapeDollars cs else c :: escapeDollars cs

/-- The text that evaluates to the given one. -/
def escaped (text : String) : String :=
  String.ofList (escapeDollars text.toList)

/-- A character that opens a span starts with an opening bracket. -/
theorem startsOpening_of {c : Char} (h : IsOpening c) (cs : List Char) :
    startsOpening (c :: cs) = true := by
  rcases h with rfl | rfl <;> rfl

/-- An opening bracket in front needs no dollar sign to open. -/
theorem opensBracket_of_startsOpening {cs : List Char} (h : startsOpening cs = true) :
    opensBracket cs = true := by
  cases cs with
  | nil => cases h
  | cons c cs =>
    have hc : IsOpening c := by simpa [startsOpening, IsOpening] using h
    exact opensBracket_opening hc cs

theorem escapeDollars_of_ne {c : Char} (hc : c ≠ '$') (cs : List Char) :
    escapeDollars (c :: cs) = c :: escapeDollars cs := by
  rw [escapeDollars, if_neg (by simp [hc])]

/-- A run of dollars in front of a bracket gets one more. -/
theorem escapeDollars_run (n : Nat) {bracket : Char} (h : IsOpening bracket) (rest : List Char) :
    escapeDollars (List.replicate (n + 1) '$' ++ bracket :: rest) =
      List.replicate (n + 2) '$' ++ bracket :: escapeDollars rest := by
  induction n with
  | zero =>
    show escapeDollars ('$' :: bracket :: rest) = _
    rw [escapeDollars, if_pos (by simp [startsOpening_of h]), escapeDollars_of_ne h.ne_dollar]
    rfl
  | succ n ih =>
    have hnext : startsOpening (List.replicate (n + 1) '$' ++ bracket :: rest) = false := rfl
    rw [List.replicate_succ, List.cons_append, escapeDollars, if_neg (by simp [hnext]), ih]
    rfl

/-- A plain character stays alone. -/
theorem escapeDollars_plain {c : Char} {cs : List Char} (h : c ≠ '$' ∨ opensBracket cs = false) :
    escapeDollars (c :: cs) = c :: escapeDollars cs := by
  rw [escapeDollars, if_neg]
  intro hstart
  rw [Bool.and_eq_true, beq_iff_eq] at hstart
  obtain ⟨rfl, hopening⟩ := hstart
  rw [opensBracket_of_startsOpening hopening] at h
  simp at h

/-- Doubling dollar signs does not change whether a bracket opens, for a run of them stays one. -/
theorem opensBracket_escapeDollars (cs : List Char) :
    opensBracket (escapeDollars cs) = opensBracket cs := by
  induction cs with
  | nil => rfl
  | cons c cs ih =>
    by_cases hc : c = '$'
    · subst hc
      rw [escapeDollars]
      split <;> simp only [opensBracket_dollar, ih]
    · rw [escapeDollars_of_ne hc]
      exact opensBracket_of_ne hc _ _

/-- Escaping leaves the plain text in front as it is, and goes on in the rest. -/
theorem spanPlain_escapeDollars (cs : List Char) :
    spanPlain (escapeDollars cs) = ((spanPlain cs).1, escapeDollars (spanPlain cs).2) := by
  induction cs with
  | nil => rfl
  | cons c cs ih =>
    by_cases hplain : c ≠ '$' ∨ opensBracket cs = false
    · rw [escapeDollars_plain hplain, spanPlain_cons hplain, spanPlain_cons, ih]
      rwa [opensBracket_escapeDollars]
    · rw [not_or, not_not, Bool.not_eq_false] at hplain
      obtain ⟨rfl, hopens⟩ := hplain
      rw [spanPlain_of_opens hopens, escapeDollars]
      split
      · exact spanPlain_of_opens (by rw [opensBracket_dollar, opensBracket_escapeDollars, hopens])
      · exact spanPlain_of_opens (by rw [opensBracket_escapeDollars, hopens])

/-! ## Evaluation -/

/-- The span is replaced by what an expression or a command gives. -/
def Span.IsLive : Span → Prop
  | .expression _ | .command _ => True
  | .escape _ _ | .plain _ | .dollar => False

/-- The spans of an escaped text are no expressions and no commands, and they are replaced by the
text. The induction is along the spans of the text: plain text ends at the end of the text or at
dollars in front of a bracket, and these are escaped as a whole. -/
theorem spans_escapeDollars (ctx : Context) (expr : String → EvalM String)
    (nested : List Char → EvalM String) (cs : List Char) :
    (∀ s ∈ spans (escapeDollars cs), ¬ s.IsLive) ∧
      evalSpans ctx expr nested (spans (escapeDollars cs)) = pure (String.ofList cs) := by
  match cs with
  | [] =>
    rw [escapeDollars, spans_nil]
    exact ⟨List.forall_mem_nil _, rfl⟩
  | c :: cs =>
    by_cases hplain : c ≠ '$' ∨ opensBracket cs = false
    · have hstarts : Span.Starts (escapeDollars (c :: cs)) (.plain (c :: (spanPlain cs).1))
          (escapeDollars (spanPlain cs).2) := by
        have hopens : c ≠ '$' ∨ opensBracket (escapeDollars cs) = false := by
          rwa [opensBracket_escapeDollars]
        have := Span.Starts.plain hopens
        rwa [spanPlain_escapeDollars, ← escapeDollars_plain hplain] at this
      have hlength := congrArg List.length (spanPlain_eq cs)
      have ih := spans_escapeDollars ctx expr nested (spanPlain cs).2
      rw [spans_of_scan? hstarts.scan?_eq]
      refine ⟨List.forall_mem_cons.2 ⟨id, ih.1⟩, ?_⟩
      rw [evalSpans, ih.2, evalSpan, pure_bind, pure_bind, ← String.ofList_append, List.cons_append,
        spanPlain_eq]
    · rw [not_or, not_not, Bool.not_eq_false] at hplain
      obtain ⟨rfl, hopens⟩ := hplain
      obtain ⟨n, bracket, rest, hbracket, hcs⟩ := opensBracket_iff.1 hopens
      have hlength := congrArg List.length hcs
      have ih := spans_escapeDollars ctx expr nested rest
      rw [hcs, ← List.cons_append, ← List.replicate_succ, escapeDollars_run n hbracket,
        spans_of_scan? (Span.Starts.escape n hbracket _).scan?_eq]
      refine ⟨List.forall_mem_cons.2 ⟨id, ih.1⟩, ?_⟩
      rw [evalSpans, ih.2, evalSpan, pure_bind, pure_bind, ← String.ofList_append,
        List.append_assoc]
      rfl
termination_by cs.length
decreasing_by
  all_goals
    simp only [List.length_append, List.length_cons] at hlength ⊢
    omega

/-- Every text has an escape: written with one dollar more in every run of dollars in front of an
opening bracket, it evaluates to itself. No span of it is live, so no expression is evaluated and no
command is run, whatever they would do, and no property is used. -/
theorem evalText_escaped (ctx : Context) (text : String) :
    (∀ s ∈ spans (escaped text).toList, ¬ s.IsLive) ∧
      (∀ expr, evalTextWith ctx expr (escaped text) = pure text) ∧
      ∀ e, evalText ctx (escaped text) e = (.ok text, e) := by
  have hspans (expr nested) := spans_escapeDollars ctx expr nested text.toList
  have heval (expr) : evalTextWith ctx expr (escaped text) = pure text := by
    rw [evalTextWith_eq, escaped, String.toList_ofList, (hspans expr _).2, String.ofList_toList]
  refine ⟨?_, heval, fun e => ?_⟩
  · rw [escaped, String.toList_ofList]
    exact (hspans pure fun _ => pure "").1
  · unfold evalText evalTextWithin
    rw [heval]
    rfl

example : escaped "a$b ${x} $$(y) $" = "a$b $${x} $$$(y) $" := by rfl

end XmlMacros.Substitution
