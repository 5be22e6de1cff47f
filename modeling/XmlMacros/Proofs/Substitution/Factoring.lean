import XmlMacros.Proofs.Expr.Inlining
import XmlMacros.Proofs.Substitution.Depth

/-!
# Factoring out expressions

An expression whose value is an integer can be factored out of another one: a new name stands for
its text, and in the other expression the name stands in the place of the expression in parentheses
(`evalAlone_inlineName`). The integer is written as a text and read again, and is the same one
(`HasTokens.exists_text`). The name has one token and the expression in parentheses has many, which
are unfolded from it (`exists_unfolding` and `exists_folding`); so the rest is said by what
unfolding does to the value of tokens.

Three guards are needed (`not_evalAlone_inlineName`). The name must not be all of the other
expression: a lone number is shown as it is written. And room counts on both sides: the parentheses
around the expression take some, and so does the name.
-/

namespace XmlMacros.Substitution

open XmlMacros.Expr XmlMacros.Decimal

/-- The name is new and stands for the text in the second scopes, in which all other names stand for
what they stand for in the first ones. -/
structure Binds (scopes scopes' : Scopes) (name text : String) : Prop where
  fresh : scopes.lookup? name = none
  bound : scopes'.lookup? name = some (.text text)
  others : ∀ other, other ≠ name → scopes'.lookup? other = scopes.lookup? other

/-- The expression does not refer to the name. -/
def Lacks (name expr : String) : Prop :=
  .name name.toList ∉ (lexemes expr.toList).1

/-- No expression in a text that some name stands for refers to the name. -/
def Unmentioned (scopes : Scopes) (name : String) : Prop :=
  ∀ other text, scopes.lookup? other = some (.text text) → ∀ expr ∈ expressionsOf text, Lacks name expr

/-! ## Integers as texts -/

section
variable {ctx : Context} {room n : Nat} {expr : String} {tokens : List Token}

/-- The text of an expression whose value is an integer is read as this integer. -/
theorem HasTokens.exists_text {m : Int} (h : HasTokens ctx room expr tokens)
    (hvalue : evalTokens (n + 1) tokens = .ok (.number (.int m)))
    (hshort : (toString m.natAbs).length ≤ digitLimit) :
    ∃ text, evalToText (n + 1) tokens = .ok text ∧
      Token.ofText text = .ok (.operand (.number (.int m)) text) := by
  rcases h.evalToText_cases hvalue with hwritten | ⟨_, text, ⟨⟩, htext, hread⟩
  · have hread : number? (toString m) = some (.ok (.int m)) :=
      (integerText_toString hshort).number?_eq
    exact ⟨_, hwritten.trans (writeInt_eq hshort), Token.ofText_of_number hread⟩
  · exact ⟨text, htext, Token.ofText_of_number hread⟩

/-- The text of an expression without a closing brace gives what the tokens of the expression
evaluate to. -/
theorem HasTokens.givesWithin_braced {text : String} (h : HasTokens ctx room expr tokens)
    (hbrace : '}' ∉ expr.toList) (htext : evalToText (room + 1) tokens = .ok text) :
    GivesWithin ctx (room + 1) (braced expr) text := by
  have hne : tokens ≠ [] := by
    rintro rfl
    cases htext
  exact (h.gives_braced_iff hne hbrace text).2 htext

/-- A name that stands for the text of an expression is worth what the expression evaluates to, in
the room that this takes. -/
theorem NameGives.of_evalAlone {limits : Limits} {name text : String} (hbrace : '}' ∉ expr.toList)
    (hlookup : ctx.scopes.lookup? name = some (.text (braced expr)))
    (h : evalAlone { ctx with limits := limits } expr = .ok text) :
    NameGives ctx limits.evaluation name text := by
  obtain ⟨room, hroom⟩ := exists_room_of_evalAlone h
  obtain ⟨tokens, htokens, htext⟩ := (evalAlone_ok_iff hroom).1 h
  have hroom : limits.evaluation = room + 1 := hroom
  rw [hroom]
  exact ⟨_, hlookup, (htokens.givesWithin_braced hbrace htext).of_answers rfl fun _ _ _ => id⟩

/-- A name that stands for the text of an expression is worth what the tokens of the expression
evaluate to, if it is worth anything. -/
theorem NameGives.eq_of_hasTokens {name text text' : String} (h : NameGives ctx n name text')
    (hlookup : ctx.scopes.lookup? name = some (.text (braced expr)))
    (htokens : HasTokens ctx room expr tokens) (hbrace : '}' ∉ expr.toList)
    (htext : evalToText (room + 1) tokens = .ok text) : text' = text := by
  obtain ⟨_, hlookup', hgives⟩ := h
  cases hlookup.symm.trans hlookup'
  exact (htokens.givesWithin_braced hbrace htext).unique hgives

end

/-! ## Names and what they stand for -/

section
variable {ctx : Context} {room : Nat} {name text : String} {v : Value} {ls body : List Lexeme}
  {inner tokens : List Token} (hname : NameGives ctx room name text)
  (htoken : Token.ofText text = .ok (.operand v text))
  (hbody : List.Forall₂ (Stands ctx room) body inner)

include hname htoken hbody

/-- Where an expression stands for a name, its tokens stand for that of the name. -/
theorem exists_unfolding (h : List.Forall₂ (Stands ctx room) ls tokens) :
    ∃ tokens', List.Forall₂ (Stands ctx room) (ls.flatMap (Lexeme.inlined name.toList body))
      tokens' ∧
      Unfolding (v, text) inner tokens tokens' := by
  induction h with
  | nil => exact ⟨[], .nil, .nil⟩
  | @cons l token ls tokens hl _ ih =>
    obtain ⟨rest, hrest, hunfolding⟩ := ih
    rw [List.flatMap_cons]
    by_cases heq : l = .name name.toList
    · subst heq
      obtain rfl := Stands.rightUnique hl (.of_nameGives hname htoken)
      refine ⟨_, ?_, .unfold hunfolding⟩
      rw [Lexeme.inlined, if_pos rfl, List.cons_append, List.append_assoc]
      exact .cons (.literal .leftParen) (List.rel_append hbody (.cons (.literal .rightParen) hrest))
    · rw [Lexeme.inlined, if_neg heq]
      exact ⟨_, .cons hl hrest, .keep _ hunfolding⟩

/-- The tokens of an expression in which another one stands for a name are unfolded from those of
the expression with the name. -/
theorem exists_folding
    (h : List.Forall₂ (Stands ctx room) (ls.flatMap (Lexeme.inlined name.toList body)) tokens) :
    ∃ tokens', List.Forall₂ (Stands ctx room) ls tokens' ∧ Unfolding (v, text) inner tokens' tokens := by
  induction ls generalizing tokens with
  | nil =>
    cases h
    exact ⟨[], .nil, .nil⟩
  | cons l ls ih =>
    rw [List.flatMap_cons] at h
    by_cases heq : l = .name name.toList
    · subst heq
      rw [Lexeme.inlined, if_pos rfl, List.cons_append, List.append_assoc] at h
      obtain ⟨_, _, hopen, hinside, rfl⟩ := List.forall₂_cons_left_iff.1 h
      obtain ⟨inner', _, rfl, hinner, hbehind⟩ := forall₂_append_left hinside
      obtain ⟨_, _, hclose, hrest, rfl⟩ := List.forall₂_cons_left_iff.1 hbehind
      obtain ⟨tokens, htokens, hunfolding⟩ := ih hrest
      obtain rfl := Stands.rightUnique hopen (.literal .leftParen)
      obtain rfl := Stands.rightUnique hclose (.literal .rightParen)
      obtain rfl := Stands.rightUnique.forall₂ hinner hbody
      exact ⟨_, .cons (.of_nameGives hname htoken) htokens, .unfold hunfolding⟩
    · rw [Lexeme.inlined, if_neg heq] at h
      obtain ⟨token, rest, hl, hrest, rfl⟩ := List.forall₂_cons_left_iff.1 h
      obtain ⟨tokens, htokens, hunfolding⟩ := ih hrest
      exact ⟨_, .cons hl htokens, .keep _ hunfolding⟩

end

/-! ## Names that do not occur -/

/-- Equality is respected by all steps of an evaluation. -/
theorem Compatible.eq : Compatible fun x y => x = y where
  pure _ := rfl
  bind := by
    rintro _ _ x _ f g rfl hfg
    rw [funext hfg]
  fault _ _ := rfl
  use _ _ := rfl
  located := by
    rintro _ _ x _ rfl
    rfl

section
variable {ctx : Context} {scopes : Scopes}

/-- What texts are replaced by depends on the scopes only through expressions. -/
theorem evalTextWith_scopes (f : String → EvalM String) (text : String) :
    evalTextWith { ctx with scopes := scopes } f text = evalTextWith ctx f text := by
  unfold evalTextWith
  generalize text.toList.length = depth
  generalize text.toList = cs
  induction depth generalizing cs with
  | zero => rfl
  | succ depth ih =>
    rw [evalChars, evalChars]
    induction spans cs with
    | nil => rfl
    | cons s rest ihs =>
      have hhead : evalSpan { ctx with scopes := scopes } f
          (evalChars { ctx with scopes := scopes } f depth) s =
          evalSpan ctx f (evalChars ctx f depth) s := by
        rw [funext ih]
        cases s <;> rfl
      rw [evalSpans, evalSpans, hhead, ihs]

variable {name text expr : String} (hbinds : Binds ctx.scopes scopes name text)
  (hvalues : Unmentioned ctx.scopes name)

include hbinds hvalues

/-- A name that is not referred to may be bound or not. -/
theorem evalExpr_scopes (room : Nat) (hexpr : Lacks name expr) :
    evalExpr { ctx with scopes := scopes } room expr = evalExpr ctx room expr := by
  induction room generalizing expr with
  | zero => rfl
  | succ room ih =>
    have htokens : tokensOf { ctx with scopes := scopes }
        (evalTextWith { ctx with scopes := scopes } (evalExpr { ctx with scopes := scopes } room))
        (lexemes expr.toList).1 =
        tokensOf ctx (evalTextWith ctx (evalExpr ctx room)) (lexemes expr.toList).1 := by
      refine tokensOf_congr fun cs hcs => ?_
      have hother : String.ofList cs ≠ name := by
        rintro rfl
        exact hexpr (by rwa [String.toList_ofList])
      rw [substitute_eq, substitute_eq]
      dsimp only
      rw [hbinds.others _ hother]
      cases hlookup : ctx.scopes.lookup? (String.ofList cs) with
      | none => rfl
      | some value =>
        cases value with
        | block => rfl
        | text s =>
          have hs : evalTextWith { ctx with scopes := scopes }
              (evalExpr { ctx with scopes := scopes } room) s =
              evalTextWith ctx (evalExpr ctx room) s := by
            rw [evalTextWith_scopes]
            exact Compatible.eq.evalTextWith_of (fun _ _ _ _ _ _ _ => rfl)
              fun expr hexpr => ih (hvalues _ s hlookup expr hexpr)
          dsimp only
          rw [hs]
    rw [evalExpr, evalExpr]
    unfold computeExpr tokenize
    dsimp only
    rw [htokens]

/-- What an expression evaluates to is the same if a name is bound that is not referred to. -/
theorem evalAlone_scopes (hexpr : Lacks name expr) :
    evalAlone { ctx with scopes := scopes } expr = evalAlone ctx expr := by
  unfold evalAlone
  rw [evalExpr_scopes hbinds hvalues _ hexpr]

end

/-! ## Factoring out -/

section
variable {ctx : Context} {name expr whole : String}

/-- A name does not occur any more where an expression without it stands in its place. -/
theorem lacks_inlineName (hleft : (visibleLexemes expr.toList).2 = []) (hexpr : Lacks name expr)
    (whole : String) : Lacks name (inlineName name expr whole) := by
  intro hmem
  have hvisible : .name name.toList ∈ (visibleLexemes (inlineName name expr whole).toList).1 :=
    List.mem_filter.2 ⟨hmem, rfl⟩
  rw [visibleLexemes_inlineName hleft] at hvisible
  obtain ⟨l, -, hl⟩ := List.mem_flatMap.1 hvisible
  unfold Lexeme.inlined at hl
  split at hl
  · have hinside : .name name.toList ∈ (visibleLexemes expr.toList).1 := by simpa using hl
    exact hexpr (List.mem_filter.1 hinside).1
  · rename_i hne
    exact hne (List.mem_singleton.1 hl).symm

/-- An expression that has tokens does not refer to a name that stands for nothing. -/
theorem HasTokens.lacks {room : Nat} {tokens : List Token} (h : HasTokens ctx room expr tokens)
    (hfresh : ctx.scopes.lookup? name = none) : Lacks name expr := by
  intro hmem
  have hvisible : .name name.toList ∈ (visibleLexemes expr.toList).1 :=
    List.mem_filter.2 ⟨hmem, rfl⟩
  obtain ⟨worth, hworth⟩ := exists_worth ctx room
  obtain ⟨text, hlookup, -⟩ := (standsFor_of_stands hworth h.2).1 _ hvisible
  rw [String.ofList_toList, hfresh] at hlookup
  cases hlookup

/-- A name that is not all of an expression is not in it if the expression is no more than one
lexeme. -/
theorem not_mem_of_lone {ls : List Lexeme} {l : Lexeme} (hne : ls ≠ [l]) (hlone : ls.length ≤ 1) :
    l ∉ ls := by
  rcases ls with _ | ⟨l', _ | ⟨_, ls⟩⟩
  · exact List.not_mem_nil
  · intro hmem
    exact hne (by rw [List.mem_singleton.1 hmem])
  · simp at hlone

/-- How deeply tokens are nested is told by their lexemes. -/
theorem nesting_lt_of_stands {cs : List Char} {ls : List Lexeme} {tokens : List Token}
    {room limit : Nat} (hcut : visibleLexemes cs = (ls, []))
    (hstands : List.Forall₂ (Stands ctx room) ls tokens)
    (h : ∀ t : Expr.Tree Operand, t.Fits 0 → t.written = ls → t.nesting < limit)
    (t : Expr.Tree (Value × String)) (hfits : t.Fits 0) (ht : t.tokens = tokens) :
    t.nesting < limit := by
  subst ht
  obtain ⟨worth, hworth⟩ := exists_worth ctx room
  obtain ⟨t', halike, rfl⟩ := exists_written_of_tokens (spaced_of_visibleLexemes hcut).2
    (standsFor_of_stands hworth hstands).2
  rw [← halike.nesting_eq]
  exact h t' ((halike.fits_iff 0).2 hfits) rfl

section
variable {room : Nat}

/-- The tokens of an expression with the body in place of the name are those of its lexemes, with
the lexemes of the body in parentheses in place of the name. -/
theorem hasTokens_inlineName {tokens : List Token} (hleft : (visibleLexemes expr.toList).2 = []) :
    HasTokens ctx room (inlineName name expr whole) tokens ↔ (visibleLexemes whole.toList).2 = [] ∧
      List.Forall₂ (Stands ctx room) ((visibleLexemes whole.toList).1.flatMap
        (Lexeme.inlined name.toList (visibleLexemes expr.toList).1)) tokens := by
  rw [HasTokens, visibleLexemes_inlineName hleft]

/-- Where the name does not occur nothing stands in its place. -/
theorem hasTokens_inlineName_of_not_mem {tokens : List Token}
    (hleft : (visibleLexemes expr.toList).2 = [])
    (hmem : .name name.toList ∉ (visibleLexemes whole.toList).1) :
    HasTokens ctx room (inlineName name expr whole) tokens ↔ HasTokens ctx room whole tokens := by
  rw [hasTokens_inlineName hleft, flatMap_inlined_of_not_mem hmem, HasTokens]

section
variable {inner : List Token} {v : Value} {text result : String}
  (hinner : HasTokens ctx room expr inner) (hvalue : evalTokens (room + 1) inner = .ok v)
  (hname : NameGives ctx room name text) (htoken : Token.ofText text = .ok (.operand v text))
  (hhole : visibleLexemes whole.toList ≠ ([.name name.toList], []))
  (hmem : .name name.toList ∈ (visibleLexemes whole.toList).1)

include hinner hvalue hname htoken hhole hmem

/-- The tokens of an expression with a name evaluate to what they do with an expression in the place
of the name that has the same value. -/
theorem exists_tokens_of_inlineName {tokens' : List Token}
    (htokens' : HasTokens ctx room (inlineName name expr whole) tokens')
    (hresult : evalToText (room + 1) tokens' = .ok result) :
    ∃ tokens, HasTokens ctx room whole tokens ∧ evalToText (room + 1) tokens = .ok result := by
  obtain ⟨hleft, hstands⟩ := (hasTokens_inlineName hinner.1).1 htokens'
  obtain ⟨tokens, htokens, hunfolding⟩ := exists_folding hname htoken hinner.2 hstands
  have hseveral : 1 < tokens.length := by
    refine htokens.length_eq ▸ Nat.not_le.1 fun hlone => ?_
    exact not_mem_of_lone (fun heq => hhole (Prod.ext heq hleft)) hlone hmem
  exact ⟨tokens, ⟨hleft, htokens⟩, evalToText_of_unfolding hunfolding hseveral hvalue hresult⟩

/-- The other way around this holds where the expression with the name taken out is not nested too
deeply. -/
theorem exists_tokens_inlineName
    (hnesting : ∀ t : Expr.Tree Operand, t.Fits 0 →
      t.written = (visibleLexemes (inlineName name expr whole).toList).1 → t.nesting < room + 1)
    {tokens : List Token} (htokens : HasTokens ctx room whole tokens)
    (hresult : evalToText (room + 1) tokens = .ok result) :
    ∃ tokens', HasTokens ctx room (inlineName name expr whole) tokens' ∧
      evalToText (room + 1) tokens' = .ok result := by
  obtain ⟨hleft, hstands⟩ := htokens
  obtain ⟨tokens', hstands', hunfolding⟩ := exists_unfolding hname htoken hinner.2 hstands
  have hseveral : 1 < tokens.length := by
    refine hstands.length_eq ▸ Nat.not_le.1 fun hlone => ?_
    exact not_mem_of_lone (fun heq => hhole (Prod.ext heq hleft)) hlone hmem
  have htokens' := (hasTokens_inlineName hinner.1).2 ⟨hleft, hstands'⟩
  have hcut : visibleLexemes (inlineName name expr whole).toList = (_, []) :=
    Prod.ext rfl htokens'.1
  exact ⟨tokens', htokens', evalToText_unfolding hunfolding hseveral hvalue
    (nesting_lt_of_stands hcut htokens'.2 hnesting) hresult⟩

end

/-- An expression that evaluates to an integer may stand in parentheses in the place of a name that
stands for its text, and the other way around. -/
theorem evalAlone_inlineName_iff {inner : List Token} {m : Int} {result : String}
    (hroom : ctx.limits.evaluation = room + 1) (hinner : HasTokens ctx room expr inner)
    (hvalue : evalTokens (room + 1) inner = .ok (.number (.int m)))
    (hshort : (toString m.natAbs).length ≤ digitLimit) (hbrace : '}' ∉ expr.toList)
    (hlookup : ctx.scopes.lookup? name = some (.text (braced expr)))
    (hhole : visibleLexemes whole.toList ≠ ([.name name.toList], [])) :
    ((∃ text, NameGives ctx room name text) →
      evalAlone ctx (inlineName name expr whole) = .ok result → evalAlone ctx whole = .ok result) ∧
    ((∀ t : Expr.Tree Operand, t.Fits 0 →
        t.written = (visibleLexemes (inlineName name expr whole).toList).1 → t.nesting < room + 1) →
      evalAlone ctx whole = .ok result →
      evalAlone ctx (inlineName name expr whole) = .ok result) := by
  obtain ⟨text, htext, htoken⟩ := hinner.exists_text hvalue hshort
  rw [evalAlone_ok_iff hroom, evalAlone_ok_iff hroom]
  by_cases hmem : .name name.toList ∈ (visibleLexemes whole.toList).1
  · have hworth : ∀ text', NameGives ctx room name text' → NameGives ctx room name text := by
      intro text' hname
      rwa [hname.eq_of_hasTokens hlookup hinner hbrace htext] at hname
    constructor
    · rintro ⟨text', hname⟩ ⟨tokens', htokens', hresult⟩
      exact exists_tokens_of_inlineName hinner hvalue (hworth text' hname) htoken hhole hmem
        htokens'
        hresult
    · rintro hnesting ⟨tokens, htokens, hresult⟩
      obtain ⟨text', hname⟩ := htokens.exists_nameGives hmem
      exact exists_tokens_inlineName hinner hvalue (hworth text' hname) htoken hhole hmem hnesting
        htokens hresult
  · simp only [hasTokens_inlineName_of_not_mem hinner.1 hmem]
    exact ⟨fun _ => id, fun _ => id⟩

end

end

/-- An expression whose value is an integer can be factored out. Where a new name stands for its
text, an expression with the name in some places that is more than the name evaluates to whatever it
does with the first expression in parentheses there, if the name is worth anything at all: it takes
more room than the expression. Also the other way around, unless parentheses and signs are then
nested too deeply. With the expression in parentheses, the name may be bound or not. -/
theorem evalAlone_inlineName (ctx : Context) {scopes : Scopes} {name expr whole : String} {m : Int}
    (hbrace : '}' ∉ expr.toList) (hvalue : valueAlone ctx expr = .ok (.number (.int m)))
    (hshort : (toString m.natAbs).length ≤ digitLimit)
    (hbinds : Binds ctx.scopes scopes name (braced expr)) (hvalues : Unmentioned ctx.scopes name)
    (hhole : visibleLexemes whole.toList ≠ ([.name name.toList], [])) :
    (∀ result,
      ((∃ text,
          NameGives { ctx with scopes := scopes } (ctx.limits.evaluation - 1) name text) →
        evalAlone { ctx with scopes := scopes } (inlineName name expr whole) = .ok result →
        evalAlone { ctx with scopes := scopes } whole = .ok result) ∧
      ((∀ t : Expr.Tree Operand, t.Fits 0 →
          t.written = (visibleLexemes (inlineName name expr whole).toList).1 →
          t.nesting < ctx.limits.evaluation) →
        evalAlone { ctx with scopes := scopes } whole = .ok result →
        evalAlone { ctx with scopes := scopes } (inlineName name expr whole) = .ok result)) ∧
    evalAlone { ctx with scopes := scopes } (inlineName name expr whole) =
      evalAlone ctx (inlineName name expr whole) := by
  obtain ⟨room, inner, hroom, hinner, hvalue⟩ := exists_tokens_of_valueAlone hvalue
  have hlacks := hinner.lacks hbinds.fresh
  have hextends : Extends ctx { ctx with scopes := scopes } := by
    refine ⟨fun other s hs => ?_, fun _ _ _ => id⟩
    by_cases hother : other = name
    · rw [hother, hbinds.fresh] at hs
      cases hs
    · exact (hbinds.others other hother).trans hs
  have hinner' := hinner.extend hextends
  refine ⟨fun result => ?_,
    evalAlone_scopes hbinds hvalues (lacks_inlineName hinner.1 hlacks whole)⟩
  rw [hroom]
  exact evalAlone_inlineName_iff hroom hinner' hvalue hshort hbrace hbinds.bound hhole

theorem unmentioned_bareContext (name : String) : Unmentioned bareContext.scopes name := by
  have hnone : ∀ text ∈ textsOf bareContext.scopes, expressionsOf text = [] := by decide +kernel
  intro other text hlookup expr hexpr
  rw [hnone text (mem_textsOf hlookup)] at hexpr
  cases hexpr

/-- A fresh name that is defined in the current scope is bound, and nothing else changes. -/
theorem binds_define {scopes : Scopes} {name : String} (hfresh : scopes.lookup? name = none)
    (text : String) : Binds scopes (scopes.define name (.text text) .current) name text where
  fresh := hfresh
  bound := by rw [Scopes.lookup?_define_current, if_pos rfl]
  others other hother := by rw [Scopes.lookup?_define_current, if_neg hother]

theorem binds_contextOf (text : String) :
    Binds bareContext.scopes (contextOf text).scopes "x" text :=
  binds_define rfl text

/-- In `2*x-x` the name may be bound to `1+2`, or `1+2` be put in its place in parentheses: the
value is `3` both ways. -/
theorem evalAlone_inlineName_difference :
    evalAlone bareContext "2*(1+2)-(1+2)" = .ok "3" ∧
      evalAlone (contextOf (braced "1+2")) "2*x-x" = .ok "3" ∧
      evalAlone (contextOf (braced "1+2")) "2*(1+2)-(1+2)" = .ok "3" := by
  have hvalue : valueAlone bareContext "1+2" = .ok (.number (.int 3)) := by with_unfolding_all rfl
  have hinlined : inlineName "x" "1+2" "2*x-x" = "2*(1+2)-(1+2)" := by decide +kernel
  have hlength : (visibleLexemes "2*(1+2)-(1+2)".toList).1.length = 13 := by decide +kernel
  have hbare : evalAlone bareContext "2*(1+2)-(1+2)" = .ok "3" := by decide +kernel
  have hhole : visibleLexemes "2*x-x".toList ≠ ([.name "x".toList], []) := by decide +kernel
  have hgives : GivesWithin (contextOf (braced "1+2")) 1 (braced "1+2") "3" := by
    unfold GivesWithin
    decide +kernel
  have hthree : NameGives (contextOf (braced "1+2")) 499 "x" "3" :=
    ⟨_, (binds_contextOf _).bound, hgives.mono (by decide)⟩
  obtain ⟨hboth, hsame⟩ := evalAlone_inlineName bareContext (by decide) hvalue (by decide)
    (binds_contextOf (braced "1+2")) (unmentioned_bareContext "x") hhole
  rw [hinlined] at hboth hsame
  have hname := (hboth "3").1 ⟨"3", hthree⟩ (hsame.trans hbare)
  refine ⟨hbare, hname, (hboth "3").2 (fun t _ ht => ?_) hname⟩
  have hnesting := t.nesting_lt_length
  rw [ht, hlength] at hnesting
  exact Nat.lt_trans hnesting (by decide)

/-- The integer that was computed, if it is one. -/
def integer? : Except Fault Value → Option Int
  | .ok (.number (.int m)) => some m
  | _ => none

theorem eq_of_integer?_eq {r : Except Fault Value} {m : Int} (h : integer? r = some m) :
    r = .ok (.number (.int m)) := by
  unfold integer? at h
  split at h <;> cases h
  rfl

/-- A property that refers to nothing, with room for one name behind another. -/
def tightContext : Context :=
  { bareContext with
    scopes := Scopes.initial.define "y" (.text "${1}") .current
    limits := ⟨2, 300⟩ }

/-- The context with an expression that refers to the property taken out of another one. -/
def tightFactored : Context :=
  { tightContext with scopes := tightContext.scopes.define "x" (.text (braced "y+1")) .current }

theorem unmentioned_tightContext : Unmentioned tightContext.scopes "x" := by
  have hone : ∀ text ∈ textsOf tightContext.scopes, ∀ expr ∈ expressionsOf text,
      .name "x".toList ∉ (lexemes expr.toList).1 := by
    decide +kernel
  exact fun other text hlookup expr hexpr => hone text (mem_textsOf hlookup) expr hexpr

/-- How an operand begins that is nested in the place of a nested one. -/
theorem visibleLexemes_inlineName_sunken (n m n' m' : Nat) : ∃ rest,
    visibleLexemes (inlineName "x" (sunken n' m' '1') (sunken n m 'x')).toList =
      (((List.replicate (2 * n) (.operator .minus) ++ List.replicate m .leftParen) ++
        .leftParen :: List.replicate (2 * n') (.operator .minus)) ++ rest, []) := by
  have hone := visibleLexemes_sunken_one n' m'
  have hname := visibleLexemes_sunken_name n m
  have hsigns : Lexeme.name "x".toList ∉ List.replicate (2 * n) (.operator .minus) := by
    simp [List.mem_replicate]
  have hparens : Lexeme.name "x".toList ∉ List.replicate m .leftParen := by
    simp [List.mem_replicate]
  have hx : (Operand.name ['x']).lexeme = .name "x".toList := rfl
  rw [visibleLexemes_inlineName (congrArg Prod.snd hone), hname, hone, written_sunkenTree,
    written_sunkenTree]
  dsimp only
  rw [List.flatMap_append, flatMap_inlined_of_not_mem hsigns, List.flatMap_append,
    flatMap_inlined_of_not_mem hparens, List.flatMap_cons, hx, Lexeme.inlined, if_pos rfl]
  simp only [List.append_assoc, List.cons_append]
  exact ⟨_, rfl⟩

/-- Three guards cannot be left out. With white space around it the name is a lone number, which is
shown as the expression is written and not as its value is. The expression in parentheses may be
nested too deeply in the other one, though neither of them is. And there may be no room for what the
name stands for, though there is for the expression in parentheses. -/
theorem not_evalAlone_inlineName :
    (∀ text, Binds bareContext.scopes (contextOf text).scopes "x" text) ∧
    Unmentioned bareContext.scopes "x" ∧
    (valueAlone bareContext "007" = .ok (.number (.int 7)) ∧
      inlineName "x" "007" " x" = " (007)" ∧
      evalAlone (contextOf (braced "007")) " x" = .ok "007" ∧
      evalAlone (contextOf (braced "007")) " (007)" = .ok "7") ∧
    (valueAlone bareContext (sunken 150 50 '1') = .ok (.number (.int 1)) ∧
      evalAlone (contextOf (braced (sunken 150 50 '1'))) (sunken 150 50 'x') = .ok "1" ∧
      ∀ text, evalAlone (contextOf (braced (sunken 150 50 '1')))
        (inlineName "x" (sunken 150 50 '1') (sunken 150 50 'x')) ≠ .ok text) ∧
    Binds tightContext.scopes tightFactored.scopes "x" (braced "y+1") ∧
      Unmentioned tightContext.scopes "x" ∧
      valueAlone tightContext "y+1" = .ok (.number (.int 2)) ∧
      inlineName "x" "y+1" "x*1" = "(y+1)*1" ∧
      evalAlone tightFactored "(y+1)*1" = .ok "2" ∧
      ∀ text, evalAlone tightFactored "x*1" ≠ .ok text := by
  have hseven : valueAlone bareContext "007" = .ok (.number (.int 7)) := by with_unfolding_all rfl
  have hinlined : inlineName "x" "007" " x" = " (007)" := by decide +kernel
  have hlone : evalAlone (contextOf (braced "007")) " x" = .ok "007" := by decide +kernel
  have hvalue : evalAlone (contextOf (braced "007")) " (007)" = .ok "7" := by decide +kernel
  have htwo : valueAlone tightContext "y+1" = .ok (.number (.int 2)) :=
    eq_of_integer?_eq (by decide +kernel)
  have hinlined' : inlineName "x" "y+1" "x*1" = "(y+1)*1" := by decide +kernel
  have hroom : evalAlone tightFactored "(y+1)*1" = .ok "2" := by decide +kernel
  have hnone : (evalAlone tightFactored "x*1").toOption = none := by decide +kernel
  refine ⟨binds_contextOf, unmentioned_bareContext "x", ⟨hseven, hinlined, hlone, hvalue⟩,
    ⟨(sunken_one (by decide) (by decide)).1, ?_, ?_⟩, binds_define rfl _, unmentioned_tightContext,
    htwo, hinlined', hroom, fun text htext => ?_⟩
  · have hone : evalAlone { contextOf (braced (sunken 150 50 '1')) with limits := ⟨499, 300⟩ }
        (sunken 150 50 '1') = .ok "1" :=
      (sunken_one (by decide) (by show 350 < 499; decide)).2
    exact evalAlone_sunken_name (by decide) (by decide)
      (.of_evalAlone (not_mem_sunken_one 150 50) (binds_contextOf _).bound hone)
  · obtain ⟨rest, hcut⟩ := visibleLexemes_inlineName_sunken 150 50 150 50
    refine evalAlone_ne_ok_of_deep hcut ?_ ?_
    · simp only [List.mem_append, List.mem_cons, List.mem_replicate]
      rintro l ((⟨-, rfl⟩ | ⟨-, rfl⟩) | rfl | ⟨-, rfl⟩) <;> simp
    · simp only [List.length_append, List.length_cons, List.length_replicate]
      decide
  · rw [htext] at hnone
    cases hnone

end XmlMacros.Substitution
