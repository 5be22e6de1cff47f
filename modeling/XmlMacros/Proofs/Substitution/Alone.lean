import XmlMacros.Proofs.Substitution.Braced
import XmlMacros.Proofs.Substitution.Composition

/-!
# Evaluating one expression

What an expression evaluates to with nothing else under way (`evalAlone`) is told by its tokens
alone: if it evaluates to a text, every visible lexeme stands for a token (`Stands`), the names for
the tokens of what they are worth without the guard, and these tokens evaluate to the text; and the
other way around (`evalAlone_ok_iff`). The expressions under way do not appear in this, so the
tokens of two expressions, or of one in two contexts, can be compared lexeme by lexeme. The same is
so for the value of an expression before it is written (`valueAlone`). The text is the value as it
is written, or a lone number that is read as the value (`HasTokens.evalToText_cases`).
-/

namespace XmlMacros.Substitution

open XmlMacros.Expr XmlMacros.Decimal

/-- What an expression evaluates to with nothing else under way. The text which is this expression
evaluates to the same (`evalText_braced`). -/
def evalAlone (ctx : Context) (expr : String) : Except Fault String :=
  (evalExpr ctx ctx.limits.evaluation expr .fresh).1.mapError Stop.toFault

/-- The value that is computed for an expression with nothing else under way, before it is written
as a text. -/
def valueAlone (ctx : Context) (expr : String) : Except Fault Value :=
  let value : EvalM Value := do
    let tokens ← tokenize ctx (evalTextWith ctx (evalExpr ctx (ctx.limits.evaluation - 1))) expr
    liftCause (evalTokens ctx.limits.evaluation tokens)
  (value ⟨[expr], #[]⟩).1.mapError Stop.toFault

section
variable {ctx : Context} {room : Nat} {expr : String}

/-- The text which is one expression evaluates to what the expression does. -/
theorem evalText_braced (hbrace : '}' ∉ expr.toList) (hne : expr.toList ≠ []) :
    (evalText ctx (braced expr) .fresh).1 = evalAlone ctx expr := by
  rw [evalText_apply, evalTextWithin, evalTextWith_braced hbrace hne]
  rfl

/-! ## With and without the guard -/

/-- The expression evaluates to the text without the guard, in so much room. -/
def ExprGives (ctx : Context) (room : Nat) (expr text : String) : Prop :=
  (evalExprFreely ctx room expr .fresh).1 = .ok text

/-- A text that is one expression has the value of the expression. -/
theorem gives_braced_iff_exprGives (hbrace : '}' ∉ expr.toList) (hne : expr.toList ≠ [])
    {text : String} : GivesWithin ctx room (braced expr) text ↔ ExprGives ctx room expr text := by
  rw [GivesWithin, evalTextFreely, evalTextWith_braced hbrace hne, ExprGives]

/-- What succeeds with the guard succeeds without it. -/
theorem evalExpr_mirrors_freely (room : Nat) (expr : String) :
    Mirrors (fun _ _ => True) (evalExpr ctx room expr) (evalExprFreely ctx room expr) := by
  induction room generalizing expr with
  | zero => exact .throw _ _
  | succ room ih =>
    have htexts : TextsMirror (fun _ _ => True) ctx ctx (evalTextWith ctx (evalExpr ctx room))
        (evalTextFreely ctx room) :=
      fun name text hname => ⟨text, hname, .evalTextWith (fun _ _ _ => id) ih text⟩
    intro e e' a e₁ _ hrun
    by_cases hmem : expr ∈ e.active
    · rw [evalExpr_of_mem hmem] at hrun
      cases hrun
    · rw [evalExpr_of_not_mem hmem] at hrun
      unfold whileActive at hrun
      rcases hinner : located expr
          (computeExpr ctx (room + 1) (evalTextWith ctx (evalExpr ctx room)) expr)
          { e with active := e.active ++ [expr] } with ⟨_, e₂⟩
      rw [hinner] at hrun
      cases hrun
      exact ((Mirrors.computeExpr (Nat.le_refl _) htexts expr).located expr) _ e' a e₂ trivial
        hinner

/-- Without the guard, an expression evaluates alike where names stand for the same texts and
commands answer the same. -/
theorem evalExprFreely_mirrors {ctx' : Context} (hscopes : ctx'.scopes = ctx.scopes)
    (hanswers : AnswersAs ctx ctx') (room : Nat) (expr : String) :
    Mirrors (fun _ _ => True) (evalExprFreely ctx room expr) (evalExprFreely ctx' room expr) := by
  cases room with
  | zero => exact .throw _ _
  | succ room =>
    have htexts : TextsMirror (fun _ _ => True) ctx ctx' (evalTextFreely ctx room)
        (evalTextFreely ctx' room) := fun name text hname =>
      ⟨text, hscopes ▸ hname, evalTextFreely_mirrors 0 room hanswers
        (fun name text hname => ⟨text, hscopes ▸ hname, .inl rfl⟩) text⟩
    exact (Mirrors.computeExpr (Nat.le_refl _) htexts expr).located expr

/-- An expression succeeds with the guard exactly where it does without it. -/
theorem evalAlone_ok_iff_exprGives {text : String} :
    evalAlone ctx expr = .ok text ↔ ExprGives ctx ctx.limits.evaluation expr text := by
  -- The guard is compared where no command fails with a cycle of its own.
  have hto : AnswersAs ctx ctx.calm := fun _ _ _ => ctx.calm_answers_iff.2
  have hfrom : AnswersAs ctx.calm ctx := fun _ _ _ => ctx.calm_answers_iff.1
  have hscopes : ctx.calm.scopes = ctx.scopes := rfl
  have hacyclic := ctx.calm_commandsAcyclic
  unfold evalAlone
  generalize ctx.limits.evaluation = room
  constructor
  · intro h
    have hok : (evalExpr ctx room expr .fresh).1 = .ok text := by
      generalize (evalExpr ctx room expr .fresh).1 = r at h
      cases r with
      | error => cases h
      | ok => cases h; rfl
    obtain ⟨e, hrun, -⟩ := evalExpr_mirrors_freely room expr .fresh .fresh text _ trivial
      (Prod.ext hok rfl)
    exact congrArg Prod.fst hrun
  · intro h
    obtain ⟨e, hcalm, -⟩ := evalExprFreely_mirrors hscopes hto room expr .fresh .fresh text _
      trivial
      (Prod.ext h rfl)
    have hends : ¬ Exhausted (evalExprFreely ctx.calm room expr .fresh).1 := by
      rw [hcalm]
      nofun
    have hfollows := (evalExpr_follows hacyclic room (Nat.le_refl room)
      (List.forall_mem_nil _) #[] hends).2
    obtain ⟨e', hrun, -⟩ := evalExpr_mirrors hscopes.symm hfrom room expr .fresh .fresh text e rfl
      (hfollows.trans hcalm)
    rw [hrun]
    rfl

/-! ## Tokens -/

/-- Whether the lexeme stands for the token in the context, where there is so much room for names: a
literal for the one that it denotes, and a name for that of the text which it is worth. -/
inductive Stands (ctx : Context) (room : Nat) : Lexeme → Token → Prop
  | literal {l : Lexeme} {token : Token} (h : Denotes l token) : Stands ctx room l token
  | name {name : List Char} {value : String} {token : Token}
    (hgives : NameGives ctx room (String.ofList name) value)
    (htoken : Token.ofText value = .ok token) : Stands ctx room (.name name) token

theorem Stands.of_nameGives {name value : String} {token : Token}
    (hgives : NameGives ctx room name value) (htoken : Token.ofText value = .ok token) :
    Stands ctx room (.name name.toList) token :=
  .name (by rwa [String.ofList_toList]) htoken

/-- Whether these are the tokens of the expression in the context, where there is so much room for
names. -/
def HasTokens (ctx : Context) (room : Nat) (expr : String) (tokens : List Token) : Prop :=
  (visibleLexemes expr.toList).2 = [] ∧
    List.Forall₂ (Stands ctx room) (visibleLexemes expr.toList).1 tokens

/-- What a name is worth does not depend on the room. -/
theorem NameGives.unique {room' : Nat} {name value value' : String}
    (h : NameGives ctx room name value)
    (h' : NameGives ctx room' name value') : value' = value := by
  obtain ⟨text, hlookup, hgives⟩ := h
  obtain ⟨text', hlookup', hgives'⟩ := h'
  cases hlookup.symm.trans hlookup'
  exact hgives.unique hgives'

/-- A lexeme stands for one token at most. -/
theorem Stands.rightUnique : Relator.RightUnique (Stands ctx room) := by
  intro l token token' h h'
  cases h with
  | literal h =>
    cases h' with
    | literal h' => cases h <;> cases h' <;> simp_all
    | name => cases h
  | name hgives htoken =>
    cases h' with
    | literal h' => cases h'
    | name hgives' htoken' =>
      rw [hgives.unique hgives', htoken] at htoken'
      exact Except.ok.inj htoken'

/-- The tokens of an expression are unique. -/
theorem HasTokens.unique {tokens tokens' : List Token} (h : HasTokens ctx room expr tokens)
    (h' : HasTokens ctx room expr tokens') : tokens = tokens' :=
  Stands.rightUnique.forall₂ h.2 h'.2

/-- What names are worth can be told by a function. -/
theorem exists_worth (ctx : Context) (room : Nat) :
    ∃ worth : String → String, ∀ name value, NameGives ctx room name value → worth name = value := by
  classical
  refine ⟨fun name => if h : ∃ value, NameGives ctx room name value then h.choose else "", ?_⟩
  intro name value hgives
  have hsome : ∃ value, NameGives ctx room name value := ⟨value, hgives⟩
  dsimp only
  rw [dif_pos hsome]
  exact hgives.unique hsome.choose_spec

/-- The worth of names told by a function, lexemes stand for the same tokens. -/
theorem standsFor_of_stands {worth : String → String}
    (hworth : ∀ name value, NameGives ctx room name value → worth name = value) {ls : List Lexeme}
    {tokens : List Token} (h : List.Forall₂ (Stands ctx room) ls tokens) :
    (∀ name, .name name ∈ ls →
        NameGives ctx room (String.ofList name) (worth (String.ofList name))) ∧
      List.Forall₂ (StandsFor worth) ls tokens := by
  induction h with
  | nil => exact ⟨nofun, .nil⟩
  | @cons l token ls tokens hl _ ih =>
    cases hl with
    | literal hl =>
      refine ⟨fun name hmem => ?_, .cons (.literal hl) ih.2⟩
      rcases List.mem_cons.1 hmem with rfl | hmem
      · cases hl
      · exact ih.1 name hmem
    | @name name value _ hgives htoken =>
      have hvalue := hworth _ _ hgives
      refine ⟨fun name' hmem => ?_, .cons (.of_ofText (by rwa [hvalue])) ih.2⟩
      rcases List.mem_cons.1 hmem with hname | hmem
      · cases hname
        rwa [hvalue]
      · exact ih.1 name' hmem

/-- A name that an expression with tokens refers to is worth something. -/
theorem HasTokens.exists_nameGives {name : String} {tokens : List Token}
    (h : HasTokens ctx room expr tokens)
    (hmem : .name name.toList ∈ (visibleLexemes expr.toList).1) :
    ∃ text, NameGives ctx room name text := by
  obtain ⟨worth, hworth⟩ := exists_worth ctx room
  have hgives := (standsFor_of_stands hworth h.2).1 _ hmem
  rw [String.ofList_toList] at hgives
  exact ⟨_, hgives⟩

/-- The tokens of an expression are computed without the guard. -/
theorem HasTokens.exists_run {tokens : List Token} (h : HasTokens ctx room expr tokens) :
    ∃ e, tokenize ctx (evalTextFreely ctx room) expr .fresh = (.ok tokens, e) := by
  obtain ⟨worth, hworth⟩ := exists_worth ctx room
  obtain ⟨hnames, hstands⟩ := standsFor_of_stands hworth h.2
  obtain ⟨uses, htokens⟩ := tokenize_of_standsFor
    (fun name hname => (hnames name hname).isWorth) h.1 hstands #[]
  exact ⟨_, htokens⟩

/-- What a name is worth with expressions under way it is worth without any. -/
theorem NameGives.of_isWorth {active : List String} {name value : String}
    (h : IsWorth ctx (evalTextFreely ctx room) active name value) :
    NameGives ctx room name value := by
  obtain ⟨text, hlookup, hrun⟩ := h
  obtain ⟨uses, hrun⟩ := hrun #[]
  exact ⟨text, hlookup, .of_run (congrArg Prod.fst hrun)⟩

/-- What lexemes stand for where names are worth what is said. -/
theorem stands_of_standsFor {worth : String → String} {ls : List Lexeme} {tokens : List Token}
    (hnames : ∀ name, .name name ∈ ls →
      NameGives ctx room (String.ofList name) (worth (String.ofList name)))
    (h : List.Forall₂ (StandsFor worth) ls tokens) : List.Forall₂ (Stands ctx room) ls tokens := by
  induction h with
  | nil => exact .nil
  | @cons l token ls tokens hl _ ih =>
    refine .cons ?_ (ih fun name hname => hnames name (List.mem_cons_of_mem _ hname))
    by_cases hname : ∃ name, l = .name name
    · obtain ⟨name, rfl⟩ := hname
      exact .name (hnames name List.mem_cons_self) hl.ofText_eq
    · cases hl with
      | literal hl => exact .literal hl
      | number | text => exact absurd ⟨_, rfl⟩ hname

/-- Tokens that are computed without the guard are those of the expression. -/
theorem HasTokens.of_run {active : List String} {uses : Array (String × Property)}
    {tokens : List Token} {e : Evaluation}
    (h : tokenize ctx (evalTextFreely ctx room) expr ⟨active, uses⟩ = (.ok tokens, e)) :
    HasTokens ctx room expr tokens := by
  obtain ⟨-, hnames, hleft, hstands⟩ :=
    tokenize_standsFor (fun text => evalTextFreely_mirrors_at room text active) h
  exact ⟨hleft, stands_of_standsFor (fun name hname => .of_isWorth (hnames name hname)) hstands⟩

/-- Where more is known, an expression that has tokens keeps them. -/
theorem HasTokens.extend {ctx' : Context} {tokens : List Token} (h : HasTokens ctx room expr tokens)
    (hextends : Extends ctx ctx') : HasTokens ctx' room expr tokens := by
  refine ⟨h.1, h.2.imp ?_⟩
  rintro l token (hl | ⟨⟨text, hlookup, hgives⟩, htoken⟩)
  · exact .literal hl
  · exact .name ⟨text, hextends.texts _ _ hlookup, hgives.extend hextends⟩ htoken

/-- An expression evaluates to a text without the guard if its tokens do. -/
theorem exprGives_iff {text : String} : ExprGives ctx (room + 1) expr text ↔
    ∃ tokens, HasTokens ctx room expr tokens ∧ evalToText (room + 1) tokens = .ok text := by
  constructor
  · intro hrun
    rw [ExprGives, evalExprFreely, located_apply] at hrun
    rcases hcompute : computeExpr ctx (room + 1) (evalTextWith ctx (evalExprFreely ctx room)) expr
      .fresh with ⟨_ | value, e⟩ <;> rw [hcompute] at hrun <;> cases hrun
    obtain ⟨tokens, e₁, htokens, hrun⟩ := bind_ok hcompute
    refine ⟨tokens, .of_run htokens, ?_⟩
    cases hvalue : evalToText (room + 1) tokens with
    | error c =>
      obtain ⟨stop, hstop⟩ := exists_stop_of_evalToText hvalue e₁
      cases hrun.symm.trans hstop
    | ok =>
      rw [valueWithin, hvalue] at hrun
      cases hrun
      rfl
  · rintro ⟨tokens, htokens, hvalue⟩
    obtain ⟨e, hrun⟩ := htokens.exists_run
    have hcompute : computeExpr ctx (room + 1) (evalTextWith ctx (evalExprFreely ctx room)) expr
        .fresh = (.ok text, e) := by
      refine (bind_of_ok hrun).trans ?_
      rw [valueWithin, hvalue]
      rfl
    rw [ExprGives, evalExprFreely, located_apply, hcompute]
    rfl

/-- An expression evaluates to a text if its tokens do. -/
theorem evalAlone_ok_iff (hroom : ctx.limits.evaluation = room + 1) {text : String} :
    evalAlone ctx expr = .ok text ↔
      ∃ tokens, HasTokens ctx room expr tokens ∧ evalToText (room + 1) tokens = .ok text := by
  rw [evalAlone_ok_iff_exprGives, hroom, exprGives_iff]

/-- An expression evaluates to nothing where there is no room at all. -/
theorem exists_room_of_evalAlone {text : String} (h : evalAlone ctx expr = .ok text) :
    ∃ room, ctx.limits.evaluation = room + 1 := by
  cases hroom : ctx.limits.evaluation with
  | zero =>
    rw [evalAlone, hroom] at h
    cases h
  | succ room => exact ⟨room, rfl⟩

/-- An expression that has a value has tokens, which evaluate to it. -/
theorem exists_tokens_of_valueAlone {v : Value} (h : valueAlone ctx expr = .ok v) :
    ∃ room tokens, ctx.limits.evaluation = room + 1 ∧ HasTokens ctx room expr tokens ∧
      evalTokens (room + 1) tokens = .ok v := by
  have hnone (tokens : List Token) : evalTokens 0 tokens ≠ .ok v := nofun
  unfold valueAlone at h
  generalize hpred : ctx.limits.evaluation - 1 = room at h
  rcases hrun : tokenize ctx (evalTextWith ctx (evalExpr ctx room)) expr ⟨[expr], #[]⟩ with
    ⟨_ | tokens, e⟩
  · dsimp only at h
    rw [bind_of_error hrun] at h
    cases h
  · dsimp only at h
    rw [bind_of_ok hrun] at h
    have htexts : TextsMirror (fun _ _ => True) ctx ctx (evalTextWith ctx (evalExpr ctx room))
        (evalTextFreely ctx room) := fun name text hname =>
      ⟨text, hname, .evalTextWith (fun _ _ _ => id) (evalExpr_mirrors_freely room) text⟩
    obtain ⟨e', hrun', -⟩ := Mirrors.tokenize htexts expr _ .fresh tokens e trivial hrun
    have hvalue : evalTokens ctx.limits.evaluation tokens = .ok v := by
      cases hvalue : evalTokens ctx.limits.evaluation tokens <;> rw [hvalue] at h <;> cases h
      rfl
    have hroom : ctx.limits.evaluation = room + 1 := by
      refine (Nat.eq_add_of_sub_eq (Nat.pos_of_ne_zero fun hzero => ?_) hpred)
      exact hnone tokens (hzero ▸ hvalue)
    exact ⟨room, tokens, hroom, .of_run hrun', hroom ▸ hvalue⟩

end

/-! ## Values as texts -/

/-- A numeral is read back from its characters. -/
theorem number?_chars {n : Numeral} {x : Number} (hn : n.WellFormed)
    (h : numberOfNumeral false n = .ok x) : number? (String.ofList n.chars) = some (.ok x) := by
  have hends : NumeralEnds [] := by
    rintro c ⟨⟩
  have hscan := Numeral.scan?_append hn hends
  obtain ⟨c, cs, hchars, hc⟩ := hn.chars_cons
  have hminus : c ≠ '-' := by
    rintro rfl
    rcases hc with hc | hc <;> exact absurd hc (by decide)
  rw [List.append_nil, hchars] at hscan
  have hsigned : signedNumeral? (String.ofList n.chars) = some (false, n) := by
    simp [signedNumeral?, hchars, hminus, hscan]
  rw [number?, hsigned]
  exact congrArg some h

section
variable {ctx : Context} {room n : Nat} {expr : String} {tokens : List Token} {v : Value}

/-- The text of an expression is its value as it is written, or a lone number that is read as its
value. -/
theorem HasTokens.evalToText_cases (h : HasTokens ctx room expr tokens)
    (hvalue : evalTokens (n + 1) tokens = .ok v) :
    evalToText (n + 1) tokens = v.write ∨ ∃ x text, v = .number x ∧
      evalToText (n + 1) tokens = .ok text ∧ number? text = some (.ok x) := by
  unfold evalToText
  split
  · rename_i x text
    cases hvalue
    -- A lone number is shown as the literal is spelled, or as what the name is worth.
    refine .inr ⟨x, text, rfl, rfl, ?_⟩
    obtain ⟨l, rest, hl, -, hls⟩ := List.forall₂_cons_right_iff.1 h.2
    cases hl with
    | name _ htoken =>
      rcases Token.ofText_cases htoken with ⟨_, hread, heq⟩ | ⟨-, heq⟩ <;> cases heq
      exact hread
    | literal hl =>
      have hproper := (spaced_of_visibleLexemes (Prod.ext hls h.1)).2 l List.mem_cons_self
      cases hl with
      | number hx =>
        rcases hproper with ⟨_, ⟨⟩⟩ | hproper
        exact number?_chars hproper hx
  · rw [hvalue]
    exact .inl rfl

/-- An expression that has a token is not empty. -/
theorem HasTokens.ne_nil (h : HasTokens ctx room expr tokens) (hne : tokens ≠ []) :
    expr.toList ≠ [] := by
  intro hempty
  obtain ⟨-, hstands⟩ := h
  rw [hempty, visibleLexemes_nil] at hstands
  cases hstands
  exact hne rfl

/-- The text that is an expression without a closing brace is worth what its tokens evaluate to. -/
theorem HasTokens.gives_braced_iff (h : HasTokens ctx room expr tokens) (hne : tokens ≠ [])
    (hbrace : '}' ∉ expr.toList) (text : String) :
    GivesWithin ctx (room + 1) (braced expr) text ↔ evalToText (room + 1) tokens = .ok text := by
  rw [gives_braced_iff_exprGives hbrace (h.ne_nil hne), exprGives_iff]
  refine ⟨?_, fun htext => ⟨tokens, h, htext⟩⟩
  rintro ⟨tokens', htokens', htext⟩
  rwa [h.unique htokens']

/-- A reference to a name takes more room than the name does. -/
theorem exists_nameGives_of_braced {name value : String} (hname : Referable name.toList)
    (h : GivesWithin ctx n (braced name) value) :
    ∃ room text, n = room + 1 ∧ NameGives ctx room name text := by
  have hcut : visibleLexemes name.toList = ([.name name.toList], []) := visibleLexemes_name hname
  have hne : name.toList ≠ [] := by
    obtain ⟨c, cs, hchars, -⟩ := hname
    rw [hchars]
    exact List.cons_ne_nil c cs
  rw [gives_braced_iff_exprGives (not_mem_of_referable hname) hne] at h
  cases n with
  | zero => cases h
  | succ room =>
    obtain ⟨tokens, htokens, -⟩ := exprGives_iff.1 h
    obtain ⟨text, htext⟩ := htokens.exists_nameGives (by rw [hcut]; exact List.mem_cons_self)
    exact ⟨room, text, rfl, htext⟩

end

end XmlMacros.Substitution
