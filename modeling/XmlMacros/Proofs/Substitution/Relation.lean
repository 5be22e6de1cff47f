import XmlMacros.Proofs.Expr.Failure
import XmlMacros.Proofs.Run
import XmlMacros.Substitution.Eval
import Mathlib.Algebra.GroupWithZero.Nat
import Mathlib.Data.List.Basic

/-!
# Relating evaluations

The evaluation of a text is put together from the evaluation of the expressions in it, and that of
an expression from the evaluation of the properties it names. If two ways to evaluate the parts are
related, the wholes are related too, for every relation that the few steps of evaluations respect
(`Compatible`): `Compatible.evalTextWith` for texts and `Compatible.locatedExpr` for expressions. An
induction over evaluations is then one about a relation and its steps, and never about the code. How
much room the two of them have is not settled by the steps, so what becomes of the tokens of an
expression in that room is left to the relation.

Only the expressions that stand in a text matter to it; `expressionsOf` lists them, and they have no
more characters than the text (`charactersOf_expressionsOf_le`). The bound on the depth of nested
commands is never met (`evalTextWith_eq`).
-/

namespace XmlMacros.Substitution

open XmlMacros.Expr

/-! ## The expressions in a text -/

/-- The expressions in a span, where `nested` gives those in the text of a command. -/
def Span.expressions (nested : List Char → List String) : Span → List String
  | .expression body => [String.ofList body]
  | .command body => nested body
  | _ => []

/-- The expressions in a text, also those in the texts of commands. The first argument bounds how
deeply commands are nested. -/
def expressionsIn : Nat → List Char → List String
  | 0, _ => []
  | depth + 1, cs => (spans cs).flatMap (Span.expressions (expressionsIn depth))

/-- The expressions in a text. -/
def expressionsOf (text : String) : List String :=
  expressionsIn text.toList.length text.toList

/-- The characters of expressions, and one more for each of them. -/
def charactersOf (exprs : List String) : Nat :=
  (exprs.map fun expr => expr.toList.length + 1).sum

@[simp] theorem charactersOf_cons (expr : String) (exprs : List String) :
    charactersOf (expr :: exprs) = expr.toList.length + 1 + charactersOf exprs := by
  simp [charactersOf]

@[simp] theorem charactersOf_append (exprs exprs' : List String) :
    charactersOf (exprs ++ exprs') = charactersOf exprs + charactersOf exprs' := by
  simp [charactersOf]

/-- Expressions are no more than their characters, for one is counted besides those of each. -/
theorem length_le_charactersOf (exprs : List String) : exprs.length ≤ charactersOf exprs := by
  induction exprs with
  | nil => exact Nat.le_refl _
  | cons expr rest ih =>
    rw [List.length_cons, charactersOf_cons]
    omega

/-- There is room in the characters for one of the expressions besides the number of all. -/
theorem length_add_length_le {exprs : List String} {expr : String} (h : expr ∈ exprs) :
    exprs.length + expr.toList.length ≤ charactersOf exprs := by
  induction exprs with
  | nil => cases h
  | cons first rest ih =>
    rw [List.length_cons, charactersOf_cons]
    rcases List.mem_cons.1 h with rfl | h
    · have := length_le_charactersOf rest
      omega
    · have := ih h
      omega

/-- The expressions of a text, with a character more for each, fit into the text. The dollar sign
and the brackets around each make up for the one more. -/
theorem charactersOf_expressionsIn_le (depth : Nat) (cs : List Char) :
    charactersOf (expressionsIn depth cs) ≤ cs.length := by
  induction depth generalizing cs with
  | zero => exact Nat.zero_le _
  | succ depth ih =>
    have hchars : cs.length = (((spans cs).map Span.chars).flatten).length := by
      rw [spans_chars]
    rw [expressionsIn, hchars]
    induction spans cs with
    | nil => exact Nat.zero_le _
    | cons s rest ihs =>
      have hhead : charactersOf (s.expressions (expressionsIn depth)) ≤ s.chars.length := by
        cases s with
        | expression body => simp [Span.expressions, Span.chars, charactersOf]
        | command body =>
          have := ih body
          simp only [Span.expressions, Span.chars, List.length_append, List.length_cons]
          omega
        | escape | plain | dollar => exact Nat.zero_le _
      simp only [List.flatMap_cons, charactersOf_append, List.map_cons, List.flatten_cons,
        List.length_append]
      omega

/-- The expressions in a text are no longer than the text. -/
theorem charactersOf_expressionsOf_le (text : String) :
    charactersOf (expressionsOf text) ≤ text.toList.length :=
  charactersOf_expressionsIn_le _ _

/-! ## Nested commands -/

/-- The value of spans depends only on the values of the commands that are among them. -/
theorem evalSpans_congr {ctx : Context} {f : String → EvalM String}
    {nested nested' : List Char → EvalM String} {ss : List Span}
    (h : ∀ body, .command body ∈ ss → nested body = nested' body) :
    evalSpans ctx f nested ss = evalSpans ctx f nested' ss := by
  induction ss with
  | nil => rfl
  | cons s rest ih =>
    have hhead : evalSpan ctx f nested s = evalSpan ctx f nested' s := by
      cases s with
      | command body =>
        show runCommand ctx nested body = runCommand ctx nested' body
        unfold runCommand
        rw [h body List.mem_cons_self]
      | expression | escape | plain | dollar => rfl
    rw [evalSpans, evalSpans, hhead, ih fun body hb => h body (List.mem_cons_of_mem _ hb)]

/-- The text of a command is shorter than the text it stands in. -/
theorem length_lt_of_command_mem {cs body : List Char} (h : .command body ∈ spans cs) :
    body.length < cs.length := by
  have hle := (List.sublist_flatten_of_mem (List.mem_map_of_mem (f := Span.chars) h)).length_le
  rw [spans_chars] at hle
  simp only [Span.chars, List.length_append, List.length_cons] at hle
  omega

/-- An empty text has the empty text as its value, however deeply commands may be nested. -/
theorem evalChars_nil (ctx : Context) (f : String → EvalM String) (depth : Nat) :
    evalChars ctx f depth [] = pure "" := by
  cases depth with
  | zero => rfl
  | succ depth => rw [evalChars, spans_nil]; rfl

/-- No text is nested more deeply than it has characters: all bounds on the depth that are large
enough are alike. -/
theorem evalChars_depth {ctx : Context} {f : String → EvalM String} {n m : Nat} {cs : List Char}
    (hn : cs.length ≤ n) (hm : cs.length ≤ m) : evalChars ctx f n cs = evalChars ctx f m cs := by
  induction n generalizing m cs with
  | zero =>
    cases List.eq_nil_of_length_eq_zero (Nat.le_zero.1 hn)
    rw [evalChars_nil, evalChars_nil]
  | succ n ih =>
    rcases m with _ | m
    · cases List.eq_nil_of_length_eq_zero (Nat.le_zero.1 hm)
      rw [evalChars_nil, evalChars_nil]
    · refine evalSpans_congr fun body hb => ?_
      have := length_lt_of_command_mem hb
      exact ih (by omega) (by omega)

/-- A text is evaluated span by span, and the texts of commands like texts of their own. -/
theorem evalTextWith_eq (ctx : Context) (f : String → EvalM String) (text : String) :
    evalTextWith ctx f text =
      evalSpans ctx f (fun body => evalTextWith ctx f (String.ofList body))
        (spans text.toList) := by
  unfold evalTextWith
  rw [evalChars_depth (Nat.le_refl _) (Nat.le_succ _)]
  refine evalSpans_congr fun body hb => ?_
  have := length_lt_of_command_mem hb
  simp only [String.toList_ofList]
  exact evalChars_depth (by omega) (Nat.le_refl _)

/-! ## Compatible relations -/

/-- A relation between evaluations that their steps respect: results, sequences, faults other than
cycles, the use of a property, and naming an expression in a fault. -/
structure Compatible (R : ∀ {α : Type}, EvalM α → EvalM α → Prop) : Prop where
  pure : ∀ {α : Type} (a : α), R (Pure.pure a : EvalM α) (Pure.pure a)
  bind : ∀ {α β : Type} {x y : EvalM α} {f g : α → EvalM β},
    R x y → (∀ a, R (f a) (g a)) → R (x >>= f) (y >>= g)
  fault : ∀ {α : Type} (f : Fault), f.kind ≠ .cyclicReference →
    R (throw (.fault f) : EvalM α) (throw (.fault f))
  use : ∀ (name : String) (value : Property), R (recordUse name value) (recordUse name value)
  located : ∀ {α : Type} (expr : String) {x y : EvalM α},
    R x y → R (Substitution.located expr x) (Substitution.located expr y)

/-- No command fails with a cycle of its own. -/
def Context.CommandsAcyclic (ctx : Context) : Prop :=
  ∀ name command arguments f, ctx.commands.get? name = some command →
    command.call ctx.view arguments = .error (.fault f) → f.kind ≠ .cyclicReference

/-- Every fault that a command fails with is related to itself. -/
def Context.CommandsRespect (ctx : Context) (R : ∀ {α : Type}, EvalM α → EvalM α → Prop) : Prop :=
  ∀ name command arguments f, ctx.commands.get? name = some command →
    command.call ctx.view arguments = .error (.fault f) →
    ∀ {α : Type}, R (throw (.fault f) : EvalM α) (throw (.fault f))

section
variable {R : ∀ {α : Type}, EvalM α → EvalM α → Prop} {ctx : Context}

/-- Commands that fail with no cycle fail alike in any relation that is compatible. -/
theorem Compatible.commandsRespect (hR : Compatible R) (hctx : ctx.CommandsAcyclic) :
    ctx.CommandsRespect R :=
  fun name command arguments f hcommand hcall _ =>
    hR.fault f (hctx name command arguments f hcommand hcall)

theorem Compatible.fail (hR : Compatible R) {α : Type} {cause : Cause}
    (h : cause.kind ≠ .cyclicReference) : R (fail cause : EvalM α) (Substitution.fail cause) :=
  hR.fault _ h

/-- A function of the result may follow related evaluations. -/
theorem Compatible.map (hR : Compatible R) {α β : Type} {x y : EvalM α} (g : α → β) (h : R x y) :
    R (g <$> x) (g <$> y) := by
  rw [← bind_pure_comp, ← bind_pure_comp]
  exact hR.bind h fun a => hR.pure (g a)

/-- Failures of expressions are related to themselves. -/
theorem Compatible.liftCause (hR : Compatible R) {α : Type} {x : Except Cause α}
    (h : EvaluationOnly x) : R (liftCause x) (liftCause x) := by
  cases x with
  | ok a => exact hR.pure a
  | error c =>
    refine hR.fail ?_
    rw [h c rfl]
    decide

/-- What stands for a name, once it is known what the name stands for. -/
theorem substitute_eq (evalText : String → EvalM String) (name : String) :
    substitute ctx evalText name = match ctx.scopes.lookup? name with
      | none => fail (.missingParameter name)
      | some (.block nodes) =>
        recordUse name (.block nodes) >>= fun _ => fail (.blockInExpression name)
      | some (.text s) => recordUse name (.text s) >>= fun _ =>
        evalText s >>= fun t => liftCause (Token.ofText t) := by
  unfold substitute resolve
  cases ctx.scopes.lookup? name with
  | none => rfl
  | some value => cases value <;> simp only [bind_assoc, pure_bind]

/-- The tokens of an expression depend on its context only through what stands for the names. -/
theorem tokensOf_congr {ctx' : Context} {f g : String → EvalM String} {ls : List Lexeme}
    (h : ∀ cs, .name cs ∈ ls →
      substitute ctx f (String.ofList cs) = substitute ctx' g (String.ofList cs)) :
    tokensOf ctx f ls = tokensOf ctx' g ls := by
  induction ls with
  | nil => rfl
  | cons l ls ih =>
    have hhead : tokenOf ctx f l = tokenOf ctx' g l := by
      cases l with
      | name cs => exact congrArg (some <$> ·) (h cs List.mem_cons_self)
      | blank | number | quoted | operator | leftParen | rightParen => rfl
    rw [tokensOf, tokensOf, hhead, ih fun cs hcs => h cs (List.mem_cons_of_mem _ hcs)]

/-- Using a property is related if the evaluations of its text are. -/
theorem Compatible.substitute (hR : Compatible R) {f g : String → EvalM String} {name : String}
    (h : ∀ s, ctx.scopes.lookup? name = some (.text s) → R (f s) (g s)) :
    R (substitute ctx f name) (substitute ctx g name) := by
  rw [substitute_eq, substitute_eq]
  cases hl : ctx.scopes.lookup? name with
  | none => exact hR.fail nofun
  | some value =>
    cases value with
    | block nodes => exact hR.bind (hR.use _ _) fun _ => hR.fail nofun
    | text s =>
      exact hR.bind (hR.use _ _) fun _ =>
        hR.bind (h s hl) fun t => hR.liftCause (Token.ofText_evaluationOnly t)

/-- The tokens of lexemes are related if the evaluations of the texts behind their names are. The
induction is on the lexemes. -/
theorem Compatible.tokensOf (hR : Compatible R) {f g : String → EvalM String}
    (h : ∀ name s, ctx.scopes.lookup? name = some (.text s) → R (f s) (g s)) (ls : List Lexeme) :
    R (tokensOf ctx f ls) (tokensOf ctx g ls) := by
  induction ls with
  | nil => exact hR.pure _
  | cons l rest ih =>
    refine hR.bind ?_ fun head => hR.bind ih fun _ => hR.pure _
    cases l with
    | number n => exact hR.map _ (hR.liftCause (Token.ofNumeral_evaluationOnly _ _ _))
    | name cs => exact hR.map _ (hR.substitute fun s hs => h _ s hs)
    | blank | quoted | operator | leftParen | rightParen => exact hR.pure _

/-- The tokens of an expression are related if the evaluations of the texts behind its names are. -/
theorem Compatible.tokenize (hR : Compatible R) {f g : String → EvalM String}
    (h : ∀ name s, ctx.scopes.lookup? name = some (.text s) → R (f s) (g s)) (expr : String) :
    R (tokenize ctx f expr) (tokenize ctx g expr) := by
  unfold Substitution.tokenize
  refine hR.bind (hR.tokensOf h _) fun tokens => ?_
  split
  · exact hR.pure _
  · exact hR.fail nofun

/-- Tokens that are not nested too deeply have a value, or fail with a cause of their own. -/
theorem valueWithin_of_ne {room : Nat} {tokens : List Token}
    (h : evalToText room tokens ≠ .error (.arithmetic .nestingTooDeep)) :
    valueWithin room tokens = Substitution.liftCause (evalToText room tokens) := by
  unfold valueWithin
  split
  · next htext => rw [htext]; rfl
  · next htext => exact absurd htext h
  · next htext => rw [htext]; rfl

/-- Tokens that are nested too deeply for the room that is left exhaust the evaluation, and the
fault names no expression yet. -/
theorem valueWithin_of_nestingTooDeep {room : Nat} {tokens : List Token}
    (h : evalToText room tokens = .error (.arithmetic .nestingTooDeep)) :
    valueWithin room tokens = throw (.exhausted none) := by
  rw [valueWithin, h]

/-- Tokens that have no value stop the evaluation and leave everything as it was. -/
theorem exists_stop_of_evalToText {room : Nat} {tokens : List Token} {c : Cause}
    (h : evalToText room tokens = .error c) (e : Evaluation) :
    ∃ stop, valueWithin room tokens e = (.error stop, e) := by
  by_cases hdeep : evalToText room tokens = .error (.arithmetic .nestingTooDeep)
  · exact ⟨.exhausted none, by rw [valueWithin_of_nestingTooDeep hdeep]; rfl⟩
  · exact ⟨.fault { cause := c }, by rw [valueWithin_of_ne hdeep, h]; rfl⟩

/-- In the same room tokens are related to themselves, if running out of it is. -/
theorem Compatible.valueWithin (hR : Compatible R)
    (h : R (throw (.exhausted none) : EvalM String) (throw (.exhausted none))) (room : Nat)
    (tokens : List Token) : R (valueWithin room tokens) (valueWithin room tokens) := by
  by_cases hdeep : evalToText room tokens = .error (.arithmetic .nestingTooDeep)
  · rw [valueWithin_of_nestingTooDeep hdeep]
    exact h
  · rw [valueWithin_of_ne hdeep]
    exact hR.liftCause (evalToText_evaluationOnly _ tokens)

/-- Related evaluations of the properties that can be looked up make related evaluations of an
expression. -/
theorem Compatible.computeExpr (hR : Compatible R) {n m : Nat}
    (hvalue : ∀ tokens, R (Substitution.valueWithin n tokens) (Substitution.valueWithin m tokens))
    {f g : String → EvalM String}
    (h : ∀ name s, ctx.scopes.lookup? name = some (.text s) → R (f s) (g s)) (expr : String) :
    R (computeExpr ctx n f expr) (computeExpr ctx m g expr) :=
  hR.bind (hR.tokenize h expr) hvalue

/-- A command is related to itself if the evaluations of its arguments are. -/
theorem Compatible.runCommand (hR : Compatible R) (hctx : ctx.CommandsRespect R)
    {f g : List Char → EvalM String} {body : List Char} (h : R (f body) (g body)) :
    R (runCommand ctx f body) (runCommand ctx g body) := by
  refine hR.bind h fun command => ?_
  split
  · exact hR.fail nofun
  · rename_i name arguments _
    split
    · exact hR.fail nofun
    · rename_i c hc
      split
      · exact hR.pure _
      · rename_i fault hfault
        exact hctx name c arguments fault hc hfault
      · exact hR.fault _ nofun

/-- The values of a text are related if those of its expressions are. The induction is on how deeply
commands are nested, as in `evalChars`. -/
theorem Compatible.evalChars (hR : Compatible R) (hctx : ctx.CommandsRespect R)
    {f g : String → EvalM String} (depth : Nat) (cs : List Char)
    (h : ∀ expr ∈ expressionsIn depth cs, R (f expr) (g expr)) :
    R (evalChars ctx f depth cs) (evalChars ctx g depth cs) := by
  induction depth generalizing cs with
  | zero => exact hR.pure _
  | succ depth ih =>
    rw [Substitution.evalChars, Substitution.evalChars]
    rw [expressionsIn] at h
    generalize spans cs = ss at h ⊢
    induction ss with
    | nil => exact hR.pure _
    | cons s rest ihs =>
      rw [List.flatMap_cons] at h
      refine hR.bind ?_ fun head => hR.bind
        (ihs fun expr he => h expr (List.mem_append_right _ he)) fun _ => hR.pure _
      cases s with
      | expression body => exact h _ (List.mem_append_left _ (List.mem_singleton.2 rfl))
      | command body =>
        exact hR.runCommand hctx (ih body fun expr he => h expr (List.mem_append_left _ he))
      | escape | plain | dollar => exact hR.pure _

/-- Related evaluations of the expressions in a text make related evaluations of the text. -/
theorem Compatible.evalTextWith_of (hR : Compatible R) (hctx : ctx.CommandsRespect R)
    {f g : String → EvalM String} {text : String}
    (h : ∀ expr ∈ expressionsOf text, R (f expr) (g expr)) :
    R (evalTextWith ctx f text) (evalTextWith ctx g text) :=
  hR.evalChars hctx _ _ h

/-- The values of a text are related if those of the expressions in it are. -/
theorem Compatible.evalTextWith (hR : Compatible R) (hctx : ctx.CommandsAcyclic)
    {f g : String → EvalM String} {text : String}
    (h : ∀ expr ∈ expressionsOf text, R (f expr) (g expr)) :
    R (evalTextWith ctx f text) (evalTextWith ctx g text) :=
  hR.evalTextWith_of (hR.commandsRespect hctx) h

/-- Related evaluations of the expressions in properties make related evaluations of an
expression, faults named after it. -/
theorem Compatible.locatedExpr_of (hR : Compatible R) (hctx : ctx.CommandsRespect R) {n m : Nat}
    (hvalue : ∀ tokens, R (Substitution.valueWithin n tokens) (Substitution.valueWithin m tokens))
    {f g : String → EvalM String}
    (h : ∀ name s, ctx.scopes.lookup? name = some (.text s) →
      ∀ expr ∈ expressionsOf s, R (f expr) (g expr)) (expr : String) :
    R (Substitution.located expr
        (Substitution.computeExpr ctx n (Substitution.evalTextWith ctx f) expr))
      (Substitution.located expr
        (Substitution.computeExpr ctx m (Substitution.evalTextWith ctx g) expr)) :=
  hR.located expr
    (hR.computeExpr hvalue (fun name s hs => hR.evalTextWith_of hctx (h name s hs)) expr)

/-- The values of an expression are related, with the expression named in their faults, if those of
the expressions behind its names are. -/
theorem Compatible.locatedExpr (hR : Compatible R) (hctx : ctx.CommandsAcyclic) {n m : Nat}
    (hvalue : ∀ tokens, R (Substitution.valueWithin n tokens) (Substitution.valueWithin m tokens))
    {f g : String → EvalM String}
    (h : ∀ name s, ctx.scopes.lookup? name = some (.text s) →
      ∀ expr ∈ expressionsOf s, R (f expr) (g expr)) (expr : String) :
    R (Substitution.located expr
        (Substitution.computeExpr ctx n (Substitution.evalTextWith ctx f) expr))
      (Substitution.located expr
        (Substitution.computeExpr ctx m (Substitution.evalTextWith ctx g) expr)) :=
  hR.locatedExpr_of (hR.commandsRespect hctx) hvalue h expr

end

end XmlMacros.Substitution
