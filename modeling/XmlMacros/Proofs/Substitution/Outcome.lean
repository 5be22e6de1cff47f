import XmlMacros.Proofs.Substitution.Cycle

/-!
# What texts evaluate to

A text evaluates to the value that it has without the guard against cycles, if it has one
(`evalText_ok_iff`). Values without the guard (`Gives`) can be compared between contexts without
regard to the expressions under way: it takes no more than that the properties that a text uses have
the same values, and that commands answer the same (`GivesWithin.of_mirrors`). A value is the same
in all rooms that are large enough for it.

Evaluations are compared step by step (`Mirrors`): wherever the first one succeeds, the second one
gives the same. Faults are left out, so nothing is asked of commands that fail.
-/

namespace XmlMacros.Substitution

open XmlMacros.Expr

/-- In the context the command answers with the text. -/
def Context.Answers (ctx : Context) (name : String) (arguments : List String) (text : String) :
    Prop :=
  ∃ command, ctx.commands.get? name = some command ∧ command.call ctx.view arguments = .ok text

/-- Where commands answer in the first context, they answer the same in the second one. -/
def AnswersAs (ctx ctx' : Context) : Prop :=
  ∀ name arguments text, ctx.Answers name arguments text → ctx'.Answers name arguments text

/-! ## Evaluations that succeed -/

/-- Wherever the first evaluation succeeds, the second one gives the same, if the expressions under
way are related, and these are related afterwards. What was used may differ. -/
def Mirrors (A : List String → List String → Prop) {α : Type} (x y : EvalM α) : Prop :=
  ∀ e e' a e₁, A e.active e'.active → x e = (.ok a, e₁) →
    ∃ e₁', y e' = (.ok a, e₁') ∧ A e₁.active e₁'.active

namespace Mirrors

variable {A : List String → List String → Prop} {α β : Type} {x y : EvalM α} {f g : α → EvalM β}

theorem pure (a : α) : Mirrors A (Pure.pure a : EvalM α) (Pure.pure a) := by
  rintro e e' _ _ hactive ⟨⟩
  exact ⟨e', rfl, hactive⟩

theorem throw (stop : Stop) (y : EvalM α) : Mirrors A (throw stop) y :=
  fun _ _ _ _ _ h => nomatch h

theorem fail (cause : Cause) (y : EvalM α) : Mirrors A (fail cause) y :=
  throw _ y

theorem use (name : String) (value value' : Property) :
    Mirrors A (recordUse name value) (recordUse name value') := by
  rintro e e' _ _ hactive ⟨⟩
  exact ⟨_, rfl, hactive⟩

/-- Two steps in a row mirror two others if each of them does for all values. -/
theorem bind (hx : Mirrors A x y) (hf : ∀ a, Mirrors A (f a) (g a)) :
    Mirrors A (x >>= f) (y >>= g) := by
  intro e e' b e₂ hactive h
  obtain ⟨a, e₁, hrun, hrest⟩ := bind_ok h
  obtain ⟨e₁', hrun', hactive'⟩ := hx e e' a e₁ hactive hrun
  rw [bind_of_ok hrun']
  exact hf a e₁ e₁' b e₂ hactive' hrest

/-- What is made of a value is made of the same one. -/
theorem map (g : α → β) (hx : Mirrors A x y) : Mirrors A (g <$> x) (g <$> y) := by
  rw [← bind_pure_comp, ← bind_pure_comp]
  exact hx.bind fun a => .pure (g a)

/-- What is computed without the evaluator is the same on both sides. -/
theorem liftCause (x : Except Cause α) : Mirrors A (liftCause x) (Substitution.liftCause x) := by
  cases x with
  | ok a => exact .pure a
  | error c => exact .fail c _

/-- Where a failure is said to be does not matter. -/
theorem located (expr : String) (hx : Mirrors A x y) :
    Mirrors A (located expr x) (Substitution.located expr y) := by
  intro e e' a e₁ hactive h
  rw [located_apply] at h
  rcases hrun : x e with ⟨stop | a', e₂⟩
  · rw [hrun] at h
    cases h
  · rw [hrun] at h
    cases h
    obtain ⟨e₁', hrun', hactive'⟩ := hx e e' a e₂ hactive hrun
    rw [located_apply, hrun']
    exact ⟨e₁', rfl, hactive'⟩

/-- An expression is under way on both sides at once, so both have the same ones under way inside of
it. -/
theorem whileActive (expr : String) (hx : Mirrors Eq x y) :
    Mirrors Eq (whileActive expr x) (Substitution.whileActive expr y) := by
  intro e e' a e₁ hactive h
  unfold Substitution.whileActive at h ⊢
  rcases hrun : x { e with active := e.active ++ [expr] } with ⟨_, e₂⟩
  rw [hrun] at h
  cases h
  obtain ⟨e₂', hrun', hactive'⟩ :=
    hx _ { e' with active := e'.active ++ [expr] } a e₂ (congrArg (· ++ [expr]) hactive) hrun
  rw [hrun']
  exact ⟨_, rfl, congrArg List.dropLast hactive'⟩

end Mirrors

/-- Every name of a text in the first context is one in the second context, and the evaluation of
its text there mirrors that of the first. -/
def TextsMirror (A : List String → List String → Prop) (ctx ctx' : Context)
    (f g : String → EvalM String) : Prop :=
  ∀ name text, ctx.scopes.lookup? name = some (.text text) →
    ∃ text', ctx'.scopes.lookup? name = some (.text text') ∧ Mirrors A (f text) (g text')

namespace Mirrors

variable {A : List String → List String → Prop} {ctx ctx' : Context}

/-- A name is looked up on both sides, and its text evaluated where it has one. -/
theorem substitute {f g : String → EvalM String} (h : TextsMirror A ctx ctx' f g)
    (name : String) : Mirrors A (substitute ctx f name) (Substitution.substitute ctx' g name) := by
  rw [substitute_eq, substitute_eq]
  cases hlookup : ctx.scopes.lookup? name with
  | none => exact .fail _ _
  | some value =>
    cases value with
    | block nodes => exact fun _ _ _ _ _ hrun => nomatch hrun
    | text text =>
      obtain ⟨text', hlookup', hmirrors⟩ := h name text hlookup
      rw [hlookup']
      exact (use _ _ _).bind fun _ => hmirrors.bind fun t => .liftCause _

/-- Lexemes become tokens in turn, by induction on their list. -/
theorem tokensOf {f g : String → EvalM String} (h : TextsMirror A ctx ctx' f g)
    (ls : List Lexeme) : Mirrors A (tokensOf ctx f ls) (Substitution.tokensOf ctx' g ls) := by
  induction ls with
  | nil => exact .pure _
  | cons l rest ih =>
    refine bind ?_ fun head => ih.bind fun _ => .pure _
    cases l with
    | number n => exact (liftCause _).map _
    | name cs => exact (substitute h _).map _
    | blank | quoted | operator | leftParen | rightParen => exact .pure _

/-- So an expression has the same tokens if the texts of its names have the same values. -/
theorem tokenize {f g : String → EvalM String} (h : TextsMirror A ctx ctx' f g) (expr : String) :
    Mirrors A (tokenize ctx f expr) (Substitution.tokenize ctx' g expr) := by
  refine bind (tokensOf h _) fun tokens => ?_
  split
  · exact .pure _
  · exact .fail _ _

/-- With more room tokens have the same value, unless there was too little. -/
theorem valueWithin {n m : Nat} (h : n ≤ m) (tokens : List Token) :
    Mirrors A (valueWithin n tokens) (Substitution.valueWithin m tokens) := by
  by_cases hdeep : evalToText n tokens = .error (.arithmetic .nestingTooDeep)
  · rw [valueWithin_of_nestingTooDeep hdeep]
    exact throw _ _
  · have hsame := evalToText_agrees h tokens hdeep
    rw [valueWithin_of_ne hdeep, valueWithin_of_ne (hsame ▸ hdeep), hsame]
    exact .liftCause _

/-- An expression is computed from its tokens, with no less room than before. -/
theorem computeExpr {n m : Nat} (hle : n ≤ m) {f g : String → EvalM String}
    (h : TextsMirror A ctx ctx' f g) (expr : String) :
    Mirrors A (computeExpr ctx n f expr) (Substitution.computeExpr ctx' m g expr) :=
  bind (tokenize h expr) fun tokens => valueWithin hle tokens

variable (hanswers : AnswersAs ctx ctx')

include hanswers

/-- A command is called with the same words and gives the same answer. -/
theorem runCommand {f g : List Char → EvalM String} {body : List Char}
    (h : Mirrors A (f body) (g body)) :
    Mirrors A (runCommand ctx f body) (Substitution.runCommand ctx' g body) := by
  refine h.bind fun command => ?_
  cases hwords : Text.words command with
  | nil => exact .fail _ _
  | cons name arguments =>
    dsimp only
    cases hcommand : ctx.commands.get? name with
    | none => exact .fail _ _
    | some c =>
      dsimp only
      cases hcall : c.call ctx.view arguments with
      | error failure => cases failure <;> exact .throw _ _
      | ok text =>
        obtain ⟨c', hcommand', hcall'⟩ := hanswers name arguments text ⟨c, hcommand, hcall⟩
        rw [hcommand']
        dsimp only
        rw [hcall']
        exact .pure _

/-- Spans are evaluated in turn, so texts mirror each other if their expressions do. -/
theorem evalTextWith {f g : String → EvalM String} (h : ∀ expr, Mirrors A (f expr) (g expr))
    (text : String) :
    Mirrors A (evalTextWith ctx f text) (Substitution.evalTextWith ctx' g text) := by
  unfold Substitution.evalTextWith
  generalize text.toList.length = depth
  generalize text.toList = cs
  induction depth generalizing cs with
  | zero => exact .pure _
  | succ depth ih =>
    rw [evalChars, evalChars]
    induction spans cs with
    | nil => exact .pure _
    | cons s rest ihs =>
      refine bind ?_ fun head => ihs.bind fun _ => .pure _
      cases s with
      | expression body => exact h _
      | command body => exact runCommand hanswers (ih body)
      | escape | plain | dollar => exact .pure _

end Mirrors

/-! ## With the guard -/

section
variable {ctx ctx' : Context}
  (hscopes : ctx'.scopes = ctx.scopes) (hanswers : AnswersAs ctx ctx')

include hscopes hanswers

/-- Contexts with the same scopes and answers evaluate an expression alike, by induction on
the room. -/
theorem evalExpr_mirrors (room : Nat) (expr : String) :
    Mirrors Eq (evalExpr ctx room expr) (evalExpr ctx' room expr) := by
  induction room generalizing expr with
  | zero => exact .throw _ _
  | succ room ih =>
    have htexts : TextsMirror Eq ctx ctx' (evalTextWith ctx (evalExpr ctx room))
        (evalTextWith ctx' (evalExpr ctx' room)) :=
      fun name text hname => ⟨text, hscopes ▸ hname, .evalTextWith hanswers ih text⟩
    intro e e' a e₁ hactive hrun
    by_cases hmem : expr ∈ e.active
    · rw [evalExpr_of_mem hmem] at hrun
      cases hrun
    · rw [evalExpr_of_not_mem hmem] at hrun
      rw [evalExpr_of_not_mem (hactive ▸ hmem)]
      exact (((Mirrors.computeExpr (Nat.le_refl _) htexts expr).located expr).whileActive expr) e e' a
        e₁ hactive hrun

/-- And so they evaluate texts. -/
theorem evalTextWithin_mirrors (room : Nat) (text : String) :
    Mirrors Eq (evalTextWithin ctx room text) (evalTextWithin ctx' room text) :=
  .evalTextWith hanswers (evalExpr_mirrors hscopes hanswers room) text

end

/-! ## Without the guard -/

/-- The text evaluates to the value without the guard, in so much room. -/
def GivesWithin (ctx : Context) (room : Nat) (text value : String) : Prop :=
  (evalTextFreely ctx room text .fresh).1 = .ok value

/-- The text evaluates to the value without the guard, in the room that there is. -/
def Gives (ctx : Context) (text value : String) : Prop :=
  GivesWithin ctx ctx.limits.evaluation text value

section
variable {ctx ctx' : Context} {n m : Nat} {text value : String}

/-- Without the guard a text evaluates to the same with other properties if those that it uses do,
where the second context may need more room for them. -/
theorem evalTextFreely_mirrors (extra n : Nat) (hanswers : AnswersAs ctx ctx')
    (hlookup : ∀ name text, ctx.scopes.lookup? name = some (.text text) →
      ∃ text', ctx'.scopes.lookup? name = some (.text text') ∧
        (text' = text ∨ ∀ k < n, Mirrors (fun _ _ => True) (evalTextFreely ctx k text)
          (evalTextFreely ctx' (k + extra) text'))) (text : String) :
    Mirrors (fun _ _ => True) (evalTextFreely ctx n text)
      (evalTextFreely ctx' (n + extra) text) := by
  induction n generalizing text with
  | zero => exact .evalTextWith hanswers (fun _ => .throw _ _) text
  | succ n ih =>
    have htexts : TextsMirror (fun _ _ => True) ctx ctx' (evalTextFreely ctx n)
        (evalTextFreely ctx' (n + extra)) := by
      intro name text hname
      obtain ⟨text', hname', rfl | hmirrors⟩ := hlookup name text hname
      · refine ⟨_, hname', ih (fun name text hname => ?_) _⟩
        obtain ⟨text', hname', hmirrors⟩ := hlookup name text hname
        exact ⟨text', hname', hmirrors.imp_right fun h k hk => h k (Nat.lt_succ_of_lt hk)⟩
      · exact ⟨_, hname', hmirrors n (Nat.lt_succ_self n)⟩
    refine .evalTextWith hanswers (fun expr => ?_) text
    rw [Nat.add_right_comm]
    exact (Mirrors.computeExpr (Nat.succ_le_succ (Nat.le_add_right n extra)) htexts expr).located expr

/-- More room changes nothing for an evaluation that succeeds. -/
theorem evalTextFreely_mirrors_self (ctx : Context) (text : String) (h : n ≤ m) :
    Mirrors (fun _ _ => True) (evalTextFreely ctx n text) (evalTextFreely ctx m text) := by
  obtain ⟨extra, rfl⟩ := Nat.exists_eq_add_of_le h
  exact evalTextFreely_mirrors extra n (fun _ _ _ => id) (fun _ text h => ⟨text, h, .inl rfl⟩) text

/-- A text gives its value in more room too, whatever was recorded before. -/
theorem GivesWithin.run (h : GivesWithin ctx n text value) (hle : n ≤ m) (e : Evaluation) :
    (evalTextFreely ctx m text e).1 = .ok value := by
  obtain ⟨e', hrun, -⟩ := evalTextFreely_mirrors_self ctx text hle .fresh e value _ trivial
    (Prod.ext h rfl)
  rw [hrun]

/-- A value in some room is the value in more room. -/
theorem GivesWithin.mono (h : GivesWithin ctx n text value) (hle : n ≤ m) :
    GivesWithin ctx m text value :=
  h.run hle .fresh

/-- A value that an evaluation ends with is the value of the text, whatever was recorded before. -/
theorem GivesWithin.of_run {e : Evaluation} (h : (evalTextFreely ctx n text e).1 = .ok value) :
    GivesWithin ctx n text value := by
  obtain ⟨e', hrun, -⟩ := evalTextFreely_mirrors_self ctx text (Nat.le_refl n) e .fresh value _
    trivial (Prod.ext h rfl)
  rw [GivesWithin, hrun]

/-- What a text evaluates to does not depend on the room. -/
theorem GivesWithin.unique {value' : String} (h : GivesWithin ctx n text value)
    (h' : GivesWithin ctx m text value') : value' = value := by
  have hboth := (h.mono (Nat.le_max_left n m)).symm.trans (h'.mono (Nat.le_max_right n m))
  cases hboth
  rfl

/-- Texts evaluate to the same in two contexts if properties have the same values and commands
answer the same. -/
theorem GivesWithin.of_mirrors (h : GivesWithin ctx n text value) (extra : Nat)
    (hanswers : AnswersAs ctx ctx')
    (hlookup : ∀ name text, ctx.scopes.lookup? name = some (.text text) →
      ∃ text', ctx'.scopes.lookup? name = some (.text text') ∧
        (text' = text ∨ ∀ k < n, Mirrors (fun _ _ => True) (evalTextFreely ctx k text)
          (evalTextFreely ctx' (k + extra) text'))) : GivesWithin ctx' (n + extra) text value := by
  obtain ⟨e', hrun, -⟩ := evalTextFreely_mirrors extra n hanswers hlookup text .fresh .fresh value _
    trivial (Prod.ext h rfl)
  rw [GivesWithin, hrun]

/-- Texts evaluate to the same with the same properties if commands answer the same. -/
theorem GivesWithin.of_answers (h : GivesWithin ctx n text value)
    (hscopes : ctx'.scopes = ctx.scopes)
    (hanswers : AnswersAs ctx ctx') : GivesWithin ctx' n text value :=
  h.of_mirrors 0 hanswers fun _ text hname => ⟨text, hscopes ▸ hname, .inl rfl⟩

/-- A text without dollars evaluates to itself. -/
theorem evalTextWith_of_not_mem (h : '$' ∉ text.toList) (f : String → EvalM String) :
    evalTextWith ctx f text = pure text := by
  have hspans {ss : List Span} (h : '$' ∉ (ss.map Span.chars).flatten)
      (nested : List Char → EvalM String) :
      evalSpans ctx f nested ss = pure (String.ofList (ss.map Span.chars).flatten) := by
    induction ss with
    | nil => rfl
    | cons s rest ih =>
      rw [List.map_cons, List.flatten_cons, List.mem_append, not_or] at h
      have hhead : evalSpan ctx f nested s = pure (String.ofList s.chars) := by
        cases s with
        | plain cs => rfl
        | dollar => rfl
        | expression | command | escape => exact absurd List.mem_cons_self h.1
      rw [evalSpans, hhead, ih h.2, List.map_cons, List.flatten_cons, String.ofList_append]
      rfl
  rw [evalTextWith_eq, hspans, spans_chars, String.ofList_toList]
  rwa [spans_chars]

/-- A text in which nothing is to be evaluated is its own value. -/
theorem GivesWithin.of_not_mem (h : '$' ∉ text.toList) : GivesWithin ctx n text text := by
  rw [GivesWithin, evalTextFreely, evalTextWith_of_not_mem h]
  rfl

end

/-! ## Without properties and commands -/

/-- Nothing can be seen but what is written. -/
def Context.bare (limits : Limits) : Context where
  scopes := ⟨∅, []⟩
  commands := ∅
  view := ⟨⟨∅, ∅, ""⟩, ∅, none⟩

/-- What a text evaluates to without properties and commands it evaluates to everywhere. -/
theorem Gives.of_bare {ctx : Context} {text value : String} (h : Gives (.bare ctx.limits) text
    value) :
    Gives ctx text value := by
  refine h.of_mirrors 0 ?_ ?_
  · rintro name arguments text ⟨command, hcommand, -⟩
    cases hcommand
  · intro name text hname
    cases hname

/-! ## The guard strikes no evaluation that succeeds -/

/-- The command as it is in a view, but with its faults taken for failures of another sort. -/
def calmCommand (view : CommandView) (command : Command) : Command :=
  .custom fun arguments => (command.call view arguments).mapError fun _ => .other ""

/-- The context with calm commands. -/
def Context.calm (ctx : Context) : Context :=
  { ctx with commands := ctx.commands.map (calmCommand ctx.view) }

section
variable (ctx : Context)

/-- Calm commands give the same answers. -/
theorem Context.calm_answers_iff {name : String} {arguments : List String} {text : String} :
    ctx.calm.Answers name arguments text ↔ ctx.Answers name arguments text := by
  have hcall (command : Command) : (calmCommand ctx.view command).call ctx.view arguments =
      .ok text ↔ command.call ctx.view arguments = .ok text := by
    show (command.call ctx.view arguments).mapError _ = .ok text ↔ _
    cases command.call ctx.view arguments <;> simp [Except.mapError]
  unfold Context.Answers
  show (∃ command, (ctx.commands.map _).get? name = some command ∧ _) ↔ _
  rw [Dict.get?_map]
  cases ctx.commands.get? name with
  | none => simp
  | some command => simp [hcall, Context.calm]

/-- And in the calm context no command reports a cycle. -/
theorem Context.calm_commandsAcyclic : ctx.calm.CommandsAcyclic := by
  intro name command arguments f hcommand hcall
  have hcommand : (ctx.commands.map (calmCommand ctx.view)).get? name = some command := hcommand
  rw [Dict.get?_map] at hcommand
  obtain ⟨command', -, rfl⟩ := Option.map_eq_some_iff.1 hcommand
  have hcall : (command'.call ctx.view arguments).mapError _ =
      .error (CommandFailure.fault f) := hcall
  generalize command'.call ctx.view arguments = r at hcall
  cases r <;> cases hcall

/-- What succeeds with the guard is what succeeds without it. -/
theorem evalText_ok_iff {text value : String} :
    (evalText ctx text .fresh).1 = .ok value ↔ Gives ctx text value := by
  -- The guard is compared where no command fails with a cycle of its own.
  have hto : AnswersAs ctx ctx.calm := fun _ _ _ => ctx.calm_answers_iff.2
  have hfrom : AnswersAs ctx.calm ctx := fun _ _ _ => ctx.calm_answers_iff.1
  have hscopes : ctx.calm.scopes = ctx.scopes := rfl
  have hacyclic := ctx.calm_commandsAcyclic
  rw [evalText_apply, Gives]
  dsimp only
  generalize ctx.limits.evaluation = room
  constructor
  · intro h
    have hok : (evalTextWithin ctx room text .fresh).1 = .ok value := by
      generalize (evalTextWithin ctx room text .fresh).1 = r at h
      cases r with
      | error => cases h
      | ok => cases h; rfl
    obtain ⟨e, hrun, -⟩ := evalTextWithin_mirrors hscopes hto room text .fresh .fresh value
      _ rfl (Prod.ext hok rfl)
    have hsettled : Settled (evalTextWithin ctx.calm room text .fresh).1 := by
      rw [hrun]
      exact ⟨nofun, nofun⟩
    have hfree := evalTextWithin_settledBy hacyclic room text .fresh [] hsettled
    rw [hrun] at hfree
    have hgives : GivesWithin ctx.calm room text value := congrArg Prod.fst hfree
    exact hgives.of_answers rfl hfrom
  · intro h
    have hcalm : GivesWithin ctx.calm room text value := h.of_answers rfl hto
    have hends : ¬ Exhausted (evalTextFreely ctx.calm room text .fresh).1 := by
      rw [hcalm]
      nofun
    have hfollows := evalTextWithin_follows hacyclic (Nat.le_refl room) hends
    obtain ⟨e, hrun, -⟩ := evalTextWithin_mirrors hscopes.symm hfrom room text .fresh .fresh
      value _ rfl (Prod.ext ((congrArg Prod.fst hfollows).trans hcalm) rfl)
    rw [hrun]
    rfl

end

end XmlMacros.Substitution
