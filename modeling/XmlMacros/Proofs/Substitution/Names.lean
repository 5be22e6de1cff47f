import XmlMacros.Proofs.Expr.Replacement
import XmlMacros.Proofs.Substitution.Grammar
import XmlMacros.Proofs.Substitution.Outcome

/-!
# Names in expressions

What a name is bound to cannot change the structure of an expression. The text of a name evaluates
to the same wherever the same expressions are under way, whatever was used before (`IsWorth`), and
stands for one token (`tokensOf_standsFor`); the tokens of an expression are one for each of its
lexemes, and the expression evaluates like the tree in which every name is replaced by a literal
(`evalExpr_replaceNames`).
-/

namespace XmlMacros.Substitution

open XmlMacros.Expr XmlMacros.Decimal

/-! ## What was used before does not matter -/

/-- In both records these expressions are under way. -/
def BothAt (active a b : List String) : Prop :=
  a = active ∧ b = active

/-- An expression that is put under way for the time of an evaluation is put there in both. -/
theorem Mirrors.whileActive_at {α : Type} {active : List String} {expr : String} {x y : EvalM α}
    (h : Mirrors (BothAt (active ++ [expr])) x y) :
    Mirrors (BothAt active) (Substitution.whileActive expr x) (Substitution.whileActive expr y) := by
  rintro e e' a e₁ ⟨rfl, hactive⟩ hrun
  unfold Substitution.whileActive at hrun ⊢
  rcases hx : x { e with active := e.active ++ [expr] } with ⟨_, e₂⟩
  rw [hx] at hrun
  cases hrun
  obtain ⟨e₂', hy, h₂, h₂'⟩ := h _ { e' with active := e'.active ++ [expr] } a e₂
    ⟨rfl, congrArg (· ++ [expr]) hactive⟩ hx
  rw [hy]
  refine ⟨_, rfl, ?_, ?_⟩
  · exact (congrArg List.dropLast h₂).trans List.dropLast_concat
  · exact (congrArg List.dropLast h₂').trans List.dropLast_concat

section
variable {ctx : Context}

/-- What an expression evaluates to does not depend on what was used before, and the expressions
under way are the same afterwards. -/
theorem evalExpr_mirrors_at (room : Nat) (expr : String) (active : List String) :
    Mirrors (BothAt active) (evalExpr ctx room expr) (evalExpr ctx room expr) := by
  induction room generalizing expr active with
  | zero => exact .throw _ _
  | succ room ih =>
    rintro e e' a e₁ ⟨hactive, hactive'⟩ hrun
    by_cases hmem : expr ∈ e.active
    · rw [evalExpr_of_mem hmem] at hrun
      cases hrun
    · rw [evalExpr_of_not_mem hmem] at hrun
      rw [evalExpr_of_not_mem (hactive' ▸ hactive ▸ hmem)]
      have htexts : TextsMirror (BothAt (active ++ [expr])) ctx ctx
          (evalTextWith ctx (evalExpr ctx room)) (evalTextWith ctx (evalExpr ctx room)) :=
        fun name text hname =>
          ⟨text, hname, .evalTextWith (fun _ _ _ => id) (fun expr => ih expr _) text⟩
      exact ((Mirrors.computeExpr (Nat.le_refl _) htexts expr).located expr).whileActive_at e e' a e₁
        ⟨hactive, hactive'⟩ hrun

/-- A text evaluates alike where the same expressions are under way, whatever was used before. -/
theorem evalTextWith_mirrors_at (room : Nat) (text : String) (active : List String) :
    Mirrors (BothAt active) (evalTextWith ctx (evalExpr ctx room) text)
      (evalTextWith ctx (evalExpr ctx room) text) :=
  .evalTextWith (fun _ _ _ => id) (fun expr => evalExpr_mirrors_at room expr active) text

end

/-! ## What names are worth -/

/-- The name is bound to a text that evaluates to the value where these expressions are under way,
whatever was used before. -/
def IsWorth (ctx : Context) (evalText : String → EvalM String) (active : List String)
    (name value : String) : Prop :=
  ∃ text, ctx.scopes.lookup? name = some (.text text) ∧
    ∀ uses, ∃ uses', evalText text ⟨active, uses⟩ = (.ok value, ⟨active, uses'⟩)

/-- What a name is worth where these expressions are under way. Names that are worth nothing count
as empty. -/
def worthOf (ctx : Context) (evalText : String → EvalM String) (active : List String)
    (name : String) : String :=
  match ctx.scopes.lookup? name with
  | some (.text text) =>
    match (evalText text ⟨active, #[]⟩).1 with
    | .ok value => value
    | .error _ => ""
  | _ => ""

section
variable {ctx : Context} {evalText : String → EvalM String} {active : List String}
  {worth : String → String} {name value : String} {uses : Array (String × Property)}

/-- What a name is worth is the value that it evaluates to. -/
theorem IsWorth.worthOf_eq (h : IsWorth ctx evalText active name value) :
    worthOf ctx evalText active name = value := by
  obtain ⟨text, hlookup, hrun⟩ := h
  obtain ⟨_, hrun⟩ := hrun #[]
  simp only [worthOf, hlookup, hrun]

/-- A name that is worth something has the token of its worth, if that has one. -/
theorem substitute_of_isWorth (h : IsWorth ctx evalText active name value)
    (uses : Array (String × Property)) :
    ∃ uses', substitute ctx evalText name ⟨active, uses⟩ =
      liftCause (Token.ofText value) ⟨active, uses'⟩ := by
  obtain ⟨text, hlookup, hrun⟩ := h
  obtain ⟨uses', hrun⟩ := hrun (uses.push (name, .text text))
  refine ⟨uses', ?_⟩
  rw [substitute_eq, hlookup]
  dsimp only
  have huse : recordUse name (.text text) ⟨active, uses⟩ =
      (.ok (), ⟨active, uses.push (name, .text text)⟩) := rfl
  rw [bind_of_ok huse, bind_of_ok hrun]

/-- A name has a token only if it is worth something, and then the token is that of its worth. -/
theorem isWorth_of_substitute
    (hsteady : ∀ text, Mirrors (BothAt active) (evalText text) (evalText text)) {token : Token}
    {e : Evaluation} (h : substitute ctx evalText name ⟨active, uses⟩ = (.ok token, e)) :
    ∃ value, IsWorth ctx evalText active name value ∧ Token.ofText value = .ok token ∧
      e.active = active := by
  rw [substitute_eq] at h
  split at h
  · cases h
  · cases h
  · rename_i text hlookup
    obtain ⟨_, e₁, huse, h⟩ := bind_ok h
    cases huse
    obtain ⟨value, e₂, hvalue, h⟩ := bind_ok h
    have hworth : IsWorth ctx evalText active name value := by
      refine ⟨text, hlookup, fun uses' => ?_⟩
      obtain ⟨⟨_, uses''⟩, hrun, -, rfl⟩ := hsteady text _ ⟨active, uses'⟩ value e₂ ⟨rfl, rfl⟩
        hvalue
      exact ⟨uses'', hrun⟩
    obtain ⟨_, _, hactive, -⟩ := hsteady text _ ⟨active, uses⟩ value e₂ ⟨rfl, rfl⟩ hvalue
    refine ⟨value, hworth, ?_⟩
    cases htoken : Token.ofText value with
    | error c => rw [htoken] at h; cases h
    | ok token' => rw [htoken] at h; cases h; exact ⟨rfl, hactive⟩

/-! ## Tokens -/

/-- White space has no token. -/
theorem tokenOf_of_isBlank {l : Lexeme} (hblank : l.isBlank = true) (e : Evaluation) :
    tokenOf ctx evalText l e = (.ok none, e) := by
  cases l with
  | blank => rfl
  | number | quoted | name | operator | leftParen | rightParen => cases hblank

/-- A visible lexeme has the token that it stands for, if names are worth what is said. -/
theorem tokenOf_of_standsFor {l : Lexeme} {token : Token}
    (hname : ∀ name, l = .name name →
      IsWorth ctx evalText active (String.ofList name) (worth (String.ofList name)))
    (h : StandsFor worth l token) (uses : Array (String × Property)) :
    ∃ uses', tokenOf ctx evalText l ⟨active, uses⟩ = (.ok (some token), ⟨active, uses'⟩) := by
  by_cases hl : ∃ name, l = .name name
  · obtain ⟨name, rfl⟩ := hl
    obtain ⟨uses', hrun⟩ := substitute_of_isWorth (hname name rfl) uses
    rw [h.ofText_eq] at hrun
    refine ⟨uses', ?_⟩
    rw [tokenOf, ← bind_pure_comp, bind_of_ok hrun]
    rfl
  · cases h with
    | literal h =>
      cases h with
      | number hx =>
        refine ⟨uses, ?_⟩
        rw [tokenOf, Token.ofNumeral, hx]
        rfl
      | quoted | operator | leftParen | rightParen => exact ⟨uses, rfl⟩
    | number | text => exact absurd ⟨_, rfl⟩ hl

/-- The tokens of lexemes are what they stand for, if names are worth what is said. -/
theorem tokensOf_of_standsFor {ls : List Lexeme} {tokens : List Token}
    (hnames : ∀ name, .name name ∈ ls →
      IsWorth ctx evalText active (String.ofList name) (worth (String.ofList name)))
    (h : List.Forall₂ (StandsFor worth) (ls.filter (!·.isBlank)) tokens)
    (uses : Array (String × Property)) :
    ∃ uses', tokensOf ctx evalText ls ⟨active, uses⟩ = (.ok tokens, ⟨active, uses'⟩) := by
  induction ls generalizing tokens uses with
  | nil =>
    cases h
    exact ⟨uses, rfl⟩
  | cons l ls ih =>
    have hrest := fun name hname => hnames name (List.mem_cons_of_mem l hname)
    cases hblank : l.isBlank with
    | true =>
      rw [List.filter_cons_of_neg (by simp [hblank])] at h
      obtain ⟨uses', hrun⟩ := ih hrest h uses
      refine ⟨uses', ?_⟩
      rw [tokensOf, bind_of_ok (tokenOf_of_isBlank hblank _), bind_of_ok hrun]
      rfl
    | false =>
      rw [List.filter_cons_of_pos (by simp [hblank])] at h
      obtain ⟨token, tokens, htoken, htokens, rfl⟩ := List.forall₂_cons_left_iff.1 h
      obtain ⟨uses₁, hhead⟩ := tokenOf_of_standsFor
        (fun name hl => hnames name (hl ▸ List.mem_cons_self)) htoken uses
      obtain ⟨uses', hrun⟩ := ih hrest htokens uses₁
      refine ⟨uses', ?_⟩
      rw [tokensOf, bind_of_ok hhead, bind_of_ok hrun]
      rfl

/-- The tokens of an expression are what its lexemes stand for, if nothing is left of it. -/
theorem tokenize_of_standsFor {expr : String} {tokens : List Token}
    (hnames : ∀ name, .name name ∈ (visibleLexemes expr.toList).1 →
      IsWorth ctx evalText active (String.ofList name) (worth (String.ofList name)))
    (hleft : (visibleLexemes expr.toList).2 = [])
    (h : List.Forall₂ (StandsFor worth) (visibleLexemes expr.toList).1 tokens)
    (uses : Array (String × Property)) :
    ∃ uses', tokenize ctx evalText expr ⟨active, uses⟩ = (.ok tokens, ⟨active, uses'⟩) := by
  obtain ⟨uses', hrun⟩ := tokensOf_of_standsFor
    (fun name hname => hnames name (List.mem_filter.2 ⟨hname, rfl⟩)) h uses
  have hleft : (lexemes expr.toList).2 = [] := hleft
  refine ⟨uses', ?_⟩
  unfold tokenize
  dsimp only
  rw [bind_of_ok hrun, hleft]
  rfl

section
variable (hsteady : ∀ text, Mirrors (BothAt active) (evalText text) (evalText text))

include hsteady

/-- The token of a visible lexeme is the one that it stands for, and a name is worth something. -/
theorem tokenOf_standsFor {l : Lexeme} (hblank : l.isBlank = false) {head : Option Token}
    {e : Evaluation} (h : tokenOf ctx evalText l ⟨active, uses⟩ = (.ok head, e)) :
    e.active = active ∧ (∀ name, l = .name name → IsWorth ctx evalText active (String.ofList name)
        (worthOf ctx evalText active (String.ofList name))) ∧
      ∃ token, head = some token ∧ StandsFor (worthOf ctx evalText active) l token := by
  by_cases hname : ∃ name, l = .name name
  · obtain ⟨name, rfl⟩ := hname
    obtain ⟨token, htoken, rfl⟩ := map_ok h
    obtain ⟨value, hworth, hvalue, hactive⟩ := isWorth_of_substitute hsteady htoken
    rw [← hworth.worthOf_eq] at hvalue
    refine ⟨hactive, ?_, token, rfl, .of_ofText hvalue⟩
    rintro name' ⟨⟩
    exact hworth.worthOf_eq ▸ hworth
  · have hname : ∀ name, l ≠ .name name := fun name hl => hname ⟨name, hl⟩
    rcases tokenOf_visible ctx evalText ⟨active, uses⟩ hblank hname with
      ⟨token, htoken, hdenotes⟩ | ⟨f, hf, -, -⟩
    · cases htoken.symm.trans h
      exact ⟨rfl, fun name hl => absurd hl (hname name), token, rfl, .literal hdenotes⟩
    · cases hf.symm.trans h

/-- Where lexemes have tokens, there is one for each of them but white space, which it stands for,
and all names are worth something. -/
theorem tokensOf_standsFor {ls : List Lexeme} {tokens : List Token} {e : Evaluation}
    (h : tokensOf ctx evalText ls ⟨active, uses⟩ = (.ok tokens, e)) :
    e.active = active ∧ (∀ name, .name name ∈ ls → IsWorth ctx evalText active (String.ofList name)
        (worthOf ctx evalText active (String.ofList name))) ∧
      List.Forall₂ (StandsFor (worthOf ctx evalText active)) (ls.filter (!·.isBlank)) tokens := by
  induction ls generalizing tokens uses with
  | nil =>
    cases h
    exact ⟨rfl, nofun, .nil⟩
  | cons l ls ih =>
    obtain ⟨head, e₁, hhead, h⟩ := bind_ok h
    obtain ⟨rest, e₂, hrest, h⟩ := bind_ok h
    cases h
    cases hblank : l.isBlank with
    | true =>
      cases (tokenOf_of_isBlank hblank _).symm.trans hhead
      obtain ⟨hactive, hnames, htokens⟩ := ih hrest
      rw [List.filter_cons_of_neg (by simp [hblank])]
      refine ⟨hactive, fun name hname => hnames name ?_, htokens⟩
      rcases List.mem_cons.1 hname with rfl | hname
      · cases hblank
      · exact hname
    | false =>
      obtain ⟨hactive₁, hname, token, rfl, htoken⟩ := tokenOf_standsFor hsteady hblank hhead
      obtain ⟨_, uses₁⟩ := e₁
      cases hactive₁
      obtain ⟨hactive, hnames, htokens⟩ := ih hrest
      rw [List.filter_cons_of_pos (by simp [hblank])]
      refine ⟨hactive, fun name hmem => ?_, .cons htoken htokens⟩
      rcases List.mem_cons.1 hmem with hl | hmem
      · exact hname name hl.symm
      · exact hnames name hmem

/-- Where an expression has tokens, nothing is left of it, there is a token for each of its lexemes
but white space, which it stands for, and all names are worth something. -/
theorem tokenize_standsFor {expr : String} {tokens : List Token} {e : Evaluation}
    (h : tokenize ctx evalText expr ⟨active, uses⟩ = (.ok tokens, e)) :
    e.active = active ∧ (∀ name, .name name ∈ (visibleLexemes expr.toList).1 →
        IsWorth ctx evalText active (String.ofList name)
          (worthOf ctx evalText active (String.ofList name))) ∧
      (visibleLexemes expr.toList).2 = [] ∧
      List.Forall₂ (StandsFor (worthOf ctx evalText active)) (visibleLexemes expr.toList).1
        tokens := by
  obtain ⟨tokens', e₁, hrun, h⟩ := bind_ok h
  split at h
  · rename_i hleft
    cases h
    obtain ⟨hactive, hnames, htokens⟩ := tokensOf_standsFor hsteady hrun
    refine ⟨hactive, fun name hname => hnames name ?_, List.isEmpty_iff.1 hleft, htokens⟩
    exact (List.mem_filter.1 hname).1
  · cases h

end

end

/-! ## Expressions -/

/-- How an expression ends whose tokens were computed: a failure names the expression. -/
def namedResult (expr : String) (r : Except Cause String) : Except Stop String :=
  r.mapError fun cause =>
    .fault (({ cause := cause } : Fault).orSuffix ("when evaluating expression '" ++ expr ++ "'"))

section
variable {ctx : Context} {room : Nat} {expr : String} {e e₁ : Evaluation} {tokens : List Token}

/-- Tokens that lexemes of a tree stand for are not nested too deeply if the tree is not. -/
theorem evalToText_written_ne_nestingTooDeep {worth : String → String} {t : Expr.Tree Operand}
    (hfits : t.Fits 0) (hnesting : t.nesting < room + 1)
    (htokens : List.Forall₂ (StandsFor worth) t.written tokens) :
    evalToText (room + 1) tokens ≠ .error (.arithmetic .nestingTooDeep) := by
  obtain ⟨t', halike, rfl⟩ := exists_tree_of_written htokens
  exact evalToText_tokens_ne_nestingTooDeep ((halike.fits_iff 0).1 hfits)
    (halike.nesting_eq ▸ hnesting)

/-- What the tokens of an expression evaluate to is what the expression evaluates to. -/
theorem evalExpr_of_tokenize (hactive : expr ∉ e.active) {r : Except Stop String}
    (htokens : tokenize ctx (evalTextWith ctx (evalExpr ctx room)) expr
      ⟨e.active ++ [expr], e.uses⟩ = (.ok tokens, e₁))
    (hvalue : valueWithin (room + 1) tokens e₁ = (r, e₁)) :
    evalExpr ctx (room + 1) expr e =
      (r.mapError (·.orSuffix ("when evaluating expression '" ++ expr ++ "'")),
        ⟨e.active, e₁.uses⟩) := by
  have hactive₁ := (tokenize_standsFor (fun text => evalTextWith_mirrors_at room text _) htokens).1
  obtain ⟨_, uses₁⟩ := e₁
  cases hactive₁
  exact evalExpr_of_computeExpr hactive ((bind_of_ok htokens).trans hvalue)

/-- Tokens that are not nested too deeply have a value, or their failure names the expression. -/
theorem evalExpr_of_ne_nestingTooDeep (hactive : expr ∉ e.active)
    (htokens : tokenize ctx (evalTextWith ctx (evalExpr ctx room)) expr
      ⟨e.active ++ [expr], e.uses⟩ = (.ok tokens, e₁))
    (h : evalToText (room + 1) tokens ≠ .error (.arithmetic .nestingTooDeep)) :
    evalExpr ctx (room + 1) expr e =
      (namedResult expr (evalToText (room + 1) tokens), ⟨e.active, e₁.uses⟩) := by
  have hvalue : valueWithin (room + 1) tokens e₁ =
      ((evalToText (room + 1) tokens).mapError fun cause => .fault { cause := cause }, e₁) := by
    rw [valueWithin_of_ne h]
    cases evalToText (room + 1) tokens <;> rfl
  rw [evalExpr_of_tokenize hactive htokens hvalue]
  cases evalToText (room + 1) tokens <;> rfl

/-- Tokens without a value make the evaluation of the expression fail. -/
theorem evalExpr_of_evalToText_error {c : Cause} (hactive : expr ∉ e.active)
    (htokens : tokenize ctx (evalTextWith ctx (evalExpr ctx room)) expr
      ⟨e.active ++ [expr], e.uses⟩ = (.ok tokens, e₁))
    (h : evalToText (room + 1) tokens = .error c) :
    ∃ stop, evalExpr ctx (room + 1) expr e = (.error stop, ⟨e.active, e₁.uses⟩) ∧
      stop.toFault.cause = c := by
  by_cases hdeep : evalToText (room + 1) tokens = .error (.arithmetic .nestingTooDeep)
  · cases h.symm.trans hdeep
    have hvalue : valueWithin (room + 1) tokens e₁ = (.error (.exhausted none), e₁) := by
      rw [valueWithin_of_nestingTooDeep hdeep]
      rfl
    exact ⟨_, evalExpr_of_tokenize hactive htokens hvalue, rfl⟩
  · have hrun := evalExpr_of_ne_nestingTooDeep hactive htokens hdeep
    rw [h] at hrun
    exact ⟨_, hrun, rfl⟩

end

/-- Names cannot change the structure of an expression. If an expression has tokens, nothing is
left of its text, and there is one token for each of its lexemes but white space: operators and
parentheses are those that it is written with, and every name stands for one number or text,
which its property evaluates to. Several tokens evaluate to the value of the tree that the
expression is written like, with a literal in parentheses in the place of every name; if the
expression is not written like a tree whose parentheses and signs are nested within the limit,
its evaluation fails. -/
theorem evalExpr_replaceNames (ctx : Context) (room : Nat) (expr : String) (e e₁ : Evaluation)
    (tokens : List Token) (hactive : expr ∉ e.active)
    (htokens : tokenize ctx (evalTextWith ctx (evalExpr ctx room)) expr
      ⟨e.active ++ [expr], e.uses⟩ = (.ok tokens, e₁)) :
    ∃ worth : String → String,
      (∀ name, .name name ∈ (visibleLexemes expr.toList).1 →
        IsWorth ctx (evalTextWith ctx (evalExpr ctx room)) (e.active ++ [expr])
          (String.ofList name) (worth (String.ofList name))) ∧
      (visibleLexemes expr.toList).2 = [] ∧
      List.Forall₂ (StandsFor worth) (visibleLexemes expr.toList).1 tokens ∧
      (1 < tokens.length →
        (∀ t : Expr.Tree Operand, t.Fits 0 → t.nesting < room + 1 →
          t.written = (visibleLexemes expr.toList).1 →
          evalExpr ctx (room + 1) expr e =
            (namedResult expr ((t.replaceNames worth).eval Constant.value >>= Value.write),
              ⟨e.active, e₁.uses⟩)) ∧
        ((∀ t : Expr.Tree Operand, t.Fits 0 → t.nesting < room + 1 →
          t.written ≠ (visibleLexemes expr.toList).1) →
          ∃ stop, evalExpr ctx (room + 1) expr e = (.error stop, ⟨e.active, e₁.uses⟩) ∧
            stop.toFault.kind = .evaluation)) := by
  obtain ⟨-, hnames, hleft, hstands⟩ :=
    tokenize_standsFor (fun text => evalTextWith_mirrors_at room text _) htokens
  refine ⟨_, hnames, hleft, hstands, fun hseveral => ⟨fun t hfits hnesting hwritten => ?_,
    fun hnone => ?_⟩⟩
  · have hstands' := hwritten ▸ hstands
    rw [evalExpr_of_ne_nestingTooDeep hactive htokens
        (evalToText_written_ne_nestingTooDeep hfits hnesting hstands'),
      evalToText_of_written hfits hnesting hstands' hseveral]
  · cases hvalue : evalToText (room + 1) tokens with
    | error c =>
      obtain ⟨stop, hrun, rfl⟩ := evalExpr_of_evalToText_error hactive htokens hvalue
      exact ⟨stop, hrun, evalToText_evaluationOnly _ _ _ hvalue⟩
    | ok text =>
      have hls := (spaced_of_visibleLexemes (Prod.ext rfl hleft)).2
      obtain ⟨t, hfits, hnesting, hwritten⟩ := exists_written_of_evalToText hls hstands hvalue
      exact absurd hwritten (hnone t hfits hnesting)

/-- What expressions see where `x` stands for a text. -/
def contextOf (text : String) : Context :=
  { bareContext with scopes := Scopes.initial.define "x" (.text text) .current }

/-- The tree of `2-x`. -/
def differenceTree : Expr.Tree Operand :=
  .binary .minus (.operand (.literal (digitLiteral '2' rfl))) (.operand (.name ['x']))

/-- A name that is worth `-3` is one token, so that `2-x` is `5`. -/
theorem evalExpr_replaceNames_negative :
    ∃ tokens e₁, tokenize (contextOf "-3")
        (evalTextWith (contextOf "-3") (evalExpr (contextOf "-3") 0)) "2-x" ⟨["2-x"], #[]⟩ =
        (.ok tokens, e₁) ∧
      tokens.map Token.text = ["2", "-", "-3"] ∧
      (evalExpr (contextOf "-3") 1 "2-x" .fresh).1 = .ok "5" := by
  have htexts : (tokenize (contextOf "-3") (evalTextWith (contextOf "-3")
      (evalExpr (contextOf "-3") 0)) "2-x" ⟨["2-x"], #[]⟩).1.toOption.map (·.map Token.text) =
      some ["2", "-", "-3"] := by
    decide +kernel
  have hcut : visibleLexemes "2-x".toList = (differenceTree.written, []) := by decide +kernel
  rcases hrun : tokenize (contextOf "-3") (evalTextWith (contextOf "-3")
      (evalExpr (contextOf "-3") 0)) "2-x" ⟨["2-x"], #[]⟩ with ⟨_ | tokens, e₁⟩
  · rw [hrun] at htexts
    cases htexts
  · rw [hrun] at htexts
    have htexts : tokens.map Token.text = ["2", "-", "-3"] := Option.some.inj htexts
    have hseveral : 1 < tokens.length := by
      have hlength : (tokens.map Token.text).length = tokens.length := List.length_map _
      rw [← hlength, htexts]
      decide
    obtain ⟨worth, hworth, -, -, hvalue⟩ := evalExpr_replaceNames (contextOf "-3") 0 "2-x" .fresh e₁
      tokens List.not_mem_nil hrun
    have hx : worth "x" = "-3" := by
      obtain ⟨text, hlookup, hgives⟩ := hworth ['x'] (by rw [hcut]; decide)
      cases hlookup
      obtain ⟨_, hgives⟩ := hgives #[]
      rw [evalTextWith_of_not_mem (by decide)] at hgives
      exact (Except.ok.inj (Prod.mk.inj hgives).1).symm
    refine ⟨tokens, e₁, rfl, htexts, ?_⟩
    rw [(hvalue hseveral).1 differenceTree (by simp [differenceTree, Expr.Tree.Fits,
      Operator.level])
      (by decide) (by rw [hcut])]
    have hreplaced : differenceTree.replaceNames worth =
        .binary .minus (.operand (.number ⟨['2'], none, none⟩)) (Constant.parenthesised "-3") := by
      rw [← hx]
      rfl
    have hfive : (Expr.Tree.binary .minus (.operand (.number ⟨['2'], none, none⟩))
        (Constant.parenthesised "-3")).eval Constant.value >>= Value.write = .ok "5" := by
      decide
    rw [hreplaced, hfive]
    rfl

/-- A name in so many parentheses. -/
def enclosedName (n : Nat) : String :=
  String.ofList (List.replicate n '(' ++ 'x' :: List.replicate n ')')

theorem scan?_x_rightParens (n : Nat) :
    Lexeme.scan? ('x' :: List.replicate n ')') = some (.name ['x'], List.replicate n ')') := by
  refine Lexeme.scan?_name ⟨'x', [], rfl, by decide, nofun⟩ fun c hc => ?_
  obtain ⟨-, rfl⟩ := List.mem_replicate.1 (List.mem_of_mem_head? hc)
  decide +kernel

theorem visibleLexemes_enclosedName (n : Nat) : visibleLexemes (enclosedName n).toList =
    (((Expr.Tree.operand (.name ['x'])).enclosed n).written, []) := by
  rw [enclosedName, String.toList_ofList, visibleLexemes_enclosed (scan?_x_rightParens n) rfl,
    Expr.Tree.written, Expr.Tree.spell_enclosed]
  rfl

/-- The only name in `x` with parentheses around it is `x`. -/
theorem eq_of_mem_written_enclosed {n : Nat} {name : List Char}
    (h : .name name ∈ ((Expr.Tree.operand (.name ['x'])).enclosed n).written) : name = ['x'] := by
  rw [Expr.Tree.written, Expr.Tree.spell_enclosed] at h
  simpa [operandSpelling, Expr.Tree.spell, Operand.lexeme, List.mem_replicate] using h

/-- The tree of `x` in as many parentheses as the limit. It is irreducible because it is large. -/
@[irreducible] def deepTree : Expr.Tree Operand :=
  (Expr.Tree.operand (.name ['x'])).enclosed 500

/-- The text of `x` in as many parentheses as the limit. -/
def deepName : String :=
  enclosedName 500

theorem visibleLexemes_deepName : visibleLexemes deepName.toList = (deepTree.written, []) := by
  rw [deepTree]
  exact visibleLexemes_enclosedName 500

/-- The only name in the deeply nested expression is worth `1`. -/
theorem isWorth_of_mem_deepName (f : String → EvalM String) (active : List String)
    {name : List Char}
    (hname : .name name ∈ (visibleLexemes deepName.toList).1) :
    IsWorth (contextOf "1") (evalTextWith (contextOf "1") f) active (String.ofList name) "1" := by
  rw [visibleLexemes_deepName, deepTree] at hname
  obtain rfl := eq_of_mem_written_enclosed hname
  refine ⟨"1", rfl, fun uses => ⟨uses, ?_⟩⟩
  rw [evalTextWith_of_not_mem (by decide)]
  rfl

/-- The tokens of `x` in parentheses, where `x` stands for one. -/
theorem tokenize_deepName (f : String → EvalM String) :
    ∃ e₁, tokenize (contextOf "1") (evalTextWith (contextOf "1") f) deepName ⟨[deepName], #[]⟩ =
      (.ok ((Expr.Tree.operand (Value.number (.int 1), "1")).enclosed 500).tokens, e₁) := by
  have hcut := visibleLexemes_deepName
  have halike : Expr.Tree.Alike (fun a b => a = Operand.name ['x'] ∧
      b = (Value.number (.int 1), "1")) deepTree
      ((Expr.Tree.operand (Value.number (.int 1), "1")).enclosed 500) := by
    rw [deepTree]
    exact (Expr.Tree.Alike.operand ⟨rfl, rfl⟩).enclosed 500
  have hstands : List.Forall₂ (StandsFor fun _ => "1") deepTree.written
      ((Expr.Tree.operand (Value.number (.int 1), "1")).enclosed 500).tokens := by
    refine halike.forall₂_spell ?_ (fun op => .literal (.operator op)) (.literal .leftParen)
      (.literal .rightParen)
    rintro _ _ ⟨rfl, rfl⟩
    exact .number rfl
  rw [← show (visibleLexemes deepName.toList).1 = deepTree.written from congrArg Prod.fst hcut]
    at hstands
  obtain ⟨uses, hrun⟩ := tokenize_of_standsFor
    (fun _ hname => isWorth_of_mem_deepName f [deepName] hname) (congrArg Prod.snd hcut) hstands #[]
  exact ⟨_, hrun⟩

/-- Without the limit the same cannot be said: an expression that is written like a tree with a
value has none, because its parentheses are nested too deeply. -/
theorem not_evalExpr_replaceNames :
    deepTree.Fits 0 ∧ deepTree.written = (visibleLexemes deepName.toList).1 ∧
      (∀ name, .name name ∈ (visibleLexemes deepName.toList).1 →
        IsWorth (contextOf "1") (evalTextWith (contextOf "1") (evalExpr (contextOf "1") 499))
          [deepName] (String.ofList name) "1") ∧
      (deepTree.replaceNames fun _ => "1").eval Constant.value >>= Value.write = .ok "1" ∧
      ∃ tokens e₁, tokenize (contextOf "1")
          (evalTextWith (contextOf "1") (evalExpr (contextOf "1") 499)) deepName
          ⟨[deepName], #[]⟩ = (.ok tokens, e₁) ∧
        1 < tokens.length ∧
        ∃ stop, (evalExpr (contextOf "1") (contextOf "1").limits.evaluation deepName .fresh).1 =
            .error stop ∧
          stop.toFault.cause = .arithmetic .nestingTooDeep := by
  have hvalue : (deepTree.replaceNames fun _ => "1").eval Constant.value >>= Value.write =
      .ok "1" := by
    rw [Expr.Tree.replaceNames, deepTree, Expr.Tree.graft_enclosed, Expr.Tree.eval_enclosed]
    decide
  obtain ⟨e₁, hrun⟩ := tokenize_deepName (evalExpr (contextOf "1") 499)
  obtain ⟨stop, hstop, hcause⟩ := evalExpr_of_evalToText_error (e := .fresh)
    List.not_mem_nil hrun (evalToText_enclosed (by decide) _)
  refine ⟨?_, (congrArg Prod.fst visibleLexemes_deepName).symm,
    fun _ hname => isWorth_of_mem_deepName _ _ hname, hvalue, _, e₁, hrun, ?_, stop,
    congrArg Prod.fst hstop, hcause⟩
  · rw [deepTree, Expr.Tree.fits_enclosed]
    trivial
  · rw [Expr.Tree.tokens, Expr.Tree.spell_enclosed, List.length_append, List.length_replicate]
    exact Nat.lt_of_lt_of_le (by decide) (Nat.le_add_right _ _)

end XmlMacros.Substitution
