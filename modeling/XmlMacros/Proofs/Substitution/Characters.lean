import XmlMacros.Proofs.Expr.Characters
import XmlMacros.Proofs.Text.Characters
import XmlMacros.Substitution.Eval

/-!
# Which characters evaluated texts are made of

A text whose characters documents may hold evaluates to such a text, where the texts of properties
and the results of commands are such (`evalText_isDocumentText`): what an evaluation brings in
besides are numbers and truth values.
-/

namespace XmlMacros

open XmlMacros.Markup XmlMacros.Expr XmlMacros.Substitution

section
variable {α : Type} {P : α → Prop}

/-- What is computed outside of the evaluator gives the values that it gives there. -/
theorem Returns.liftCause {x : Except Cause α} (h : ∀ a, x = .ok a → P a) :
    Returns P (liftCause x) := by
  cases x with
  | ok a => exact .pure (h a rfl)
  | error c => exact .throw _

/-- Where a failure is said to be has no bearing on what succeeds. -/
theorem Returns.located {expr : String} {x : EvalM α} (h : Returns P x) :
    Returns P (located expr x) :=
  h.tryCatch fun _ => .throw _

/-- Nor has it which expressions are under way. -/
theorem Returns.whileActive {expr : String} {x : EvalM α} (h : Returns P x) :
    Returns P (whileActive expr x) := by
  intro e a e' hrun
  cases hx : x { e with active := e.active ++ [expr] } with
  | mk r e₁ =>
    unfold Substitution.whileActive at hrun
    rw [hx] at hrun
    cases hrun
    exact h _ _ _ hx

end

namespace Substitution

/-- The texts of properties and the results of commands may stand in documents. -/
structure Context.Legal (ctx : Context) : Prop where
  text : ∀ {name s}, ctx.scopes.lookup? name = some (.text s) → IsDocumentText s
  command : ∀ {name c arguments result}, ctx.commands.get? name = some c →
    (∀ a ∈ arguments, IsDocumentText a) → c.call ctx.view arguments = .ok result →
    IsDocumentText result

/-! ## Expressions -/

/-- The token of a numeral has the text that the numeral is written as. -/
theorem legal_of_ofNumeral {negative : Bool} {n : Decimal.Numeral} {s : String} {t : Expr.Token}
    (hs : IsDocumentText s) (h : Expr.Token.ofNumeral negative n s = .ok t) : t.Legal := by
  unfold Expr.Token.ofNumeral at h
  cases hnumber : numberOfNumeral negative n with
  | error c =>
    rw [hnumber] at h
    cases h
  | ok x =>
    rw [hnumber] at h
    cases h
    exact ⟨nofun, hs⟩

/-- A text that may stand in documents is a legal token, whether it is a number or not. -/
theorem legal_of_ofText {s : String} {t : Expr.Token} (hs : IsDocumentText s)
    (h : Expr.Token.ofText s = .ok t) : t.Legal := by
  unfold Expr.Token.ofText at h
  split at h
  · exact legal_of_ofNumeral hs h
  · cases h
    exact ⟨Value.legal_text hs, hs⟩

section
variable {ctx : Context} (hctx : ctx.Legal) {evalText : String → EvalM String}
  (heval : ∀ s, IsDocumentText s → Returns IsDocumentText (evalText s))

include hctx heval

/-- What a name stands for is legal: its text is evaluated first, or it is a truth value. -/
theorem substitute_legal (name : String) :
    Returns Expr.Token.Legal (substitute ctx evalText name) := by
  have hresolve : Returns (ctx.scopes.lookup? name = some ·) (resolve ctx name) := by
    unfold resolve
    cases ctx.scopes.lookup? name with
    | none => exact .throw _
    | some value => exact .bind fun _ => .pure rfl
  refine hresolve.bind_of fun value hvalue => ?_
  cases value with
  | block nodes => exact .throw _
  | text s =>
    exact (heval s (hctx.text hvalue)).bind_of fun s' hs' =>
      .liftCause fun t ht => legal_of_ofText hs' ht

/-- A lexeme that is written with such characters is a legal token, or none if it is blank. -/
theorem tokenOf_legal {l : Lexeme} (hl : ∀ c ∈ l.chars, isDocumentChar c) :
    Returns (fun t? => ∀ t ∈ t?, t.Legal) (tokenOf ctx evalText l) := by
  have hsome : ∀ t : Expr.Token, t.Legal → ∀ t' ∈ some t, t'.Legal := by
    rintro t ht _ ⟨⟩
    exact ht
  have htext : IsDocumentText (String.ofList l.chars) := isDocumentText_ofList.2 hl
  cases l with
  | blank => exact .pure nofun
  | number n =>
    exact (Returns.liftCause fun t ht => legal_of_ofNumeral htext ht).map_of hsome
  | quoted quote body =>
    refine .pure (hsome _ ⟨Value.legal_text (isDocumentText_ofList.2 fun c hc => ?_), htext⟩)
    exact hl c (List.mem_cons_of_mem _ (List.mem_append_left _ hc))
  | name cs => exact (substitute_legal hctx heval _).map_of hsome
  | operator | leftParen | rightParen => exact .pure (hsome _ trivial)

/-- And so are all lexemes of an expression, in turn. -/
theorem tokensOf_legal {ls : List Lexeme} (hls : ∀ l ∈ ls, ∀ c ∈ l.chars, isDocumentChar c) :
    Returns LegalTokens (tokensOf ctx evalText ls) := by
  induction ls with
  | nil => exact .pure nofun
  | cons l ls ih =>
    obtain ⟨hl, hls⟩ := List.forall_mem_cons.1 hls
    refine (tokenOf_legal hctx heval hl).bind_of fun head hhead => ?_
    refine (ih hls).bind_of fun tail htail => .pure (List.forall_mem_append.2 ⟨?_, htail⟩)
    exact fun t ht => hhead t (by simpa using ht)

/-- What an expression computes is a text that documents may hold. -/
theorem computeExpr_isDocumentText (room : Nat) {expr : String} (hexpr : IsDocumentText expr) :
    Returns IsDocumentText (computeExpr ctx room evalText expr) := by
  have hlexemes : ∀ l ∈ (lexemes expr.toList).1, ∀ c ∈ l.chars, isDocumentChar c := by
    intro l hl c hc
    refine hexpr c ?_
    rw [← lexemes_chars expr.toList]
    exact List.mem_append_left _ (List.mem_flatten.2 ⟨l.chars, List.mem_map_of_mem hl, hc⟩)
  have htokens : Returns LegalTokens (tokenize ctx evalText expr) := by
    refine (tokensOf_legal hctx heval hlexemes).bind_of fun tokens htokens => ?_
    split
    · exact .pure htokens
    · exact .throw _
  refine htokens.bind_of fun tokens htokens => ?_
  unfold valueWithin
  split
  · next htext => exact .pure (isDocumentText_of_evalToText htokens htext)
  · exact .throw _
  · exact .throw _

end

/-! ## Texts -/

section
variable {ctx : Context} (hctx : ctx.Legal) {expr : String → EvalM String}
  (hexpr : ∀ s, IsDocumentText s → Returns IsDocumentText (expr s))

include hctx

/-- A command is called with words of its evaluated text, so what it gives is such a text. -/
theorem runCommand_isDocumentText {nested : List Char → EvalM String} {body : List Char}
    (h : Returns IsDocumentText (nested body)) :
    Returns IsDocumentText (runCommand ctx nested body) := by
  refine h.bind_of fun command hcommand => ?_
  have hwords : ∀ word ∈ Text.words command, IsDocumentText word :=
    fun word hword c hc => hcommand c (Text.mem_words hword hc)
  split
  · exact .throw _
  · next name arguments heq =>
    rw [heq] at hwords
    cases hfound : ctx.commands.get? name with
    | none => exact .throw _
    | some c =>
      cases hcall : c.call ctx.view arguments with
      | ok text =>
        dsimp only
        rw [hcall]
        refine .pure (hctx.command hfound (fun a ha => ?_) hcall)
        exact hwords a (List.mem_cons_of_mem _ ha)
      | error failure =>
        dsimp only
        rw [hcall]
        cases failure <;> exact .throw _

include hexpr

/-- A span is evaluated to such a text if what stands in it is. -/
theorem evalSpan_isDocumentText {nested : List Char → EvalM String} {s : Span}
    (hs : ∀ c ∈ s.chars, isDocumentChar c)
    (hnested : ∀ body, (∀ c ∈ body, isDocumentChar c) → Returns IsDocumentText (nested body)) :
    Returns IsDocumentText (evalSpan ctx expr nested s) := by
  cases s with
  | expression body =>
    refine hexpr _ (isDocumentText_ofList.2 fun c hc => hs c ?_)
    exact List.mem_cons_of_mem _ (List.mem_cons_of_mem _ (List.mem_append_left _ hc))
  | command body =>
    refine runCommand_isDocumentText hctx (hnested body fun c hc => hs c ?_)
    exact List.mem_cons_of_mem _ (List.mem_cons_of_mem _ (List.mem_append_left _ hc))
  | escape extra bracket =>
    refine .pure (isDocumentText_ofList.2 (List.forall_mem_append.2
      ⟨fun c hc => ?_, fun c hc => ?_⟩))
    · rw [List.eq_of_mem_replicate hc]
      rfl
    · exact hs c (List.mem_append_right _ hc)
  | plain cs => exact .pure (isDocumentText_ofList.2 hs)
  | dollar => exact .pure (by decide)

/-- All spans of a text are evaluated, and those of commands hold texts that are evaluated in turn.
So the induction is on how deep commands may be nested. -/
theorem evalChars_isDocumentText (depth : Nat) {cs : List Char} (hcs : ∀ c ∈ cs, isDocumentChar c) :
    Returns IsDocumentText (evalChars ctx expr depth cs) := by
  induction depth generalizing cs with
  | zero => exact .pure (isDocumentText_ofList.2 hcs)
  | succ depth ih =>
    have hspans : ∀ s ∈ spans cs, ∀ c ∈ s.chars, isDocumentChar c := by
      intro s hs c hc
      refine hcs c ?_
      rw [← spans_chars cs]
      exact List.mem_flatten.2 ⟨s.chars, List.mem_map_of_mem hs, hc⟩
    rw [evalChars]
    generalize spans cs = ss at hspans ⊢
    induction ss with
    | nil => exact .pure (by decide)
    | cons s rest ihrest =>
      obtain ⟨hs, hrest⟩ := List.forall_mem_cons.1 hspans
      exact (evalSpan_isDocumentText hctx hexpr hs fun _ => ih).bind_of fun head hhead =>
        (ihrest hrest).bind_of fun tail htail => .pure (hhead.append htail)

end

section
variable {ctx : Context} (hctx : ctx.Legal)

include hctx

/-- An expression refers to names, whose texts are evaluated with less room, so the induction is on
the room. -/
theorem evalExpr_isDocumentText (room : Nat) {expr : String} (hexpr : IsDocumentText expr) :
    Returns IsDocumentText (evalExpr ctx room expr) := by
  induction room generalizing expr with
  | zero => exact .throw _
  | succ room ih =>
    refine .bind fun e => ?_
    dsimp only
    split
    · exact .throw _
    · refine .whileActive (.located (computeExpr_isDocumentText hctx (fun s hs => ?_) _ hexpr))
      exact evalChars_isDocumentText hctx (fun _ => ih) _ hs

/-- Texts evaluate to texts that documents may hold. -/
theorem evalText_isDocumentText {text : String} (htext : IsDocumentText text) :
    Returns IsDocumentText (evalText ctx text) := by
  have hwithin := evalChars_isDocumentText hctx (fun _ hs => evalExpr_isDocumentText hctx
    ctx.limits.evaluation hs) text.toList.length htext
  intro e s e' h
  let run := evalTextWithin ctx ctx.limits.evaluation text e
  have h : (run.1.mapError Stop.toFault, run.2) = (.ok s, e') := h
  rcases hrun : run with ⟨_ | value, e₁⟩
  · rw [hrun] at h
    cases h
  · rw [hrun] at h
    cases h
    exact hwithin e s _ hrun

end

end Substitution

end XmlMacros
