import XmlMacros.Proofs.Substitution.Deferral

/-!
# Texts that open no command

A command is run where `$(` stands in a text that is evaluated: in the text itself or in a property
that an expression names. What an expression computes is no such text. It may spell a command, put
together from parts or left over from an escape, and it is only a value. So if `$(` stands neither
in the text nor in a property, the commands do not matter, and none is called
(`evalText_commandless`).

That none is called is told with evaluations that do something else where a command stands
(`evalTextRunning`), such as to fail or to leave a mark in the record: they all do the same as
`evalText`, which is one of them (`evalTextRunning_evalTextWith`).
-/

namespace XmlMacros.Substitution

open XmlMacros.Expr

/-- The two characters that open a command stand in the text. -/
def OpensCommand (text : String) : Prop :=
  ['$', '('] <:+: text.toList

instance (text : String) : Decidable (OpensCommand text) :=
  inferInstanceAs (Decidable (['$', '('] <:+: text.toList))

/-! ## Something else in place of commands -/

section
variable (ctx : Context) (run : (String → EvalM String) → List Char → EvalM String)

/-- Evaluates an expression, with `run` in place of the evaluation of what stands in the brackets of
a command. It is given what evaluates expressions. -/
def evalExprRunning : Nat → String → EvalM String
  | 0, _ => throw (.exhausted none)
  | room + 1, expr => do
    let active := (← get).active
    if expr ∈ active then fail (.cyclicReference (active ++ [expr]))
    else
      whileActive expr (located expr (computeExpr ctx (room + 1)
        (fun text => evalSpans ctx (evalExprRunning room) (run (evalExprRunning room))
          (spans text.toList)) expr))

/-- Evaluates a text, with `run` in place of the evaluation of what stands in the brackets of a
command. -/
def evalTextRunning (text : String) : ExceptT Fault (StateM Evaluation) String :=
  let expr := evalExprRunning ctx run ctx.limits.evaluation
  ExceptT.adapt Stop.toFault (evalSpans ctx expr (run expr) (spans text.toList))

end

/-- What stands in the brackets of a command is evaluated like a text. -/
theorem evalExprRunning_evalTextWith (ctx : Context) (room : Nat) :
    evalExprRunning ctx (fun expr body => evalTextWith ctx expr (String.ofList body)) room =
      evalExpr ctx room := by
  induction room with
  | zero => rfl
  | succ room ih =>
    funext expr
    rw [evalExprRunning, evalExpr, ih, ← funext (evalTextWith_eq ctx (evalExpr ctx room))]

/-- With the commands of the table, evaluating with any way of running commands is the evaluation
itself. -/
theorem evalTextRunning_evalTextWith (ctx : Context) :
    evalTextRunning ctx (fun expr body => evalTextWith ctx expr (String.ofList body)) =
      evalText ctx := by
  funext text
  unfold evalTextRunning evalText evalTextWithin
  rw [evalExprRunning_evalTextWith, evalTextWith_eq]

/-! ## No command -/

/-- A command among the spans of a text opens in the text. -/
theorem command_not_mem {text : String} (h : ¬ OpensCommand text) (body : List Char) :
    .command body ∉ spans text.toList := by
  intro hmem
  obtain ⟨before, behind, hspans⟩ := List.append_of_mem hmem
  refine h ⟨(before.map Span.chars).flatten,
    body ++ [')'] ++ (behind.map Span.chars).flatten, ?_⟩
  rw [← spans_chars text.toList, hspans]
  simp [Span.chars]

/-- Without a command, spans are replaced by the same in every context. -/
theorem evalSpans_commandless {ctx ctx' : Context} {expr : String → EvalM String}
    {nested nested' : List Char → EvalM String} {ss : List Span} (h : ∀ body, .command body ∉ ss) :
    evalSpans ctx expr nested ss = evalSpans ctx' expr nested' ss := by
  induction ss with
  | nil => rfl
  | cons s rest ih =>
    have hhead : evalSpan ctx expr nested s = evalSpan ctx' expr nested' s := by
      cases s with
      | command body => exact absurd List.mem_cons_self (h body)
      | expression | escape | plain | dollar => rfl
    rw [evalSpans, evalSpans, hhead, ih fun body hmem => h body (List.mem_cons_of_mem _ hmem)]

section
variable {ctx ctx' : Context} (hscopes : ctx'.scopes = ctx.scopes)
  (hsilent : ∀ name s, ctx.scopes.lookup? name = some (.text s) → ¬ OpensCommand s)

include hscopes hsilent

/-- If no property opens a command, expressions evaluate alike with any commands, and whatever is
met in their place. The induction is on the room: an expression comes to a text only by way of a
property. -/
theorem evalExprRunning_commandless (run run' : (String → EvalM String) → List Char → EvalM String)
    (room : Nat) : evalExprRunning ctx' run' room = evalExprRunning ctx run room := by
  induction room with
  | zero => rfl
  | succ room ih =>
    funext expr
    have htokens : tokensOf ctx'
        (fun text => evalSpans ctx' (evalExprRunning ctx' run' room)
          (run' (evalExprRunning ctx' run' room)) (spans text.toList)) (lexemes expr.toList).1 =
        tokensOf ctx
        (fun text => evalSpans ctx (evalExprRunning ctx run room)
          (run (evalExprRunning ctx run room)) (spans text.toList)) (lexemes expr.toList).1 := by
      refine tokensOf_congr fun cs _ => ?_
      rw [substitute_eq, substitute_eq, hscopes]
      cases hlookup : ctx.scopes.lookup? (String.ofList cs) with
      | none => rfl
      | some value =>
        cases value with
        | block => rfl
        | text s =>
          dsimp only
          rw [ih, evalSpans_commandless (command_not_mem (hsilent _ s hlookup))]
    rw [evalExprRunning, evalExprRunning]
    unfold computeExpr tokenize
    dsimp only
    rw [htokens]

/-- Where nothing opens a command, it does not matter how commands are run. Every text that is met
is one of those which the names stand for, so the spans of all of them are free of commands. -/
theorem evalTextRunning_commandless (hlimits : ctx'.limits = ctx.limits)
    (run run' : (String → EvalM String) → List Char → EvalM String)
    {text : String} (htext : ¬ OpensCommand text) :
    evalTextRunning ctx' run' text = evalTextRunning ctx run text := by
  unfold evalTextRunning
  dsimp only
  rw [hlimits, evalExprRunning_commandless hscopes hsilent run run',
    evalSpans_commandless (command_not_mem htext)]

end

/-- Expressions never reach a command. If the two characters that open one stand neither in the text
nor in a property that can be looked up, then the text evaluates alike with every table of commands
and whatever they see. None is called: whatever is done where a command stands, the evaluation is
the same. -/
theorem evalText_commandless {ctx : Context} {text : String} (htext : ¬ OpensCommand text)
    (hsilent : ∀ name s, ctx.scopes.lookup? name = some (.text s) → ¬ OpensCommand s) :
    (∀ commands view, evalText { ctx with commands := commands, view := view } text =
      evalText ctx text) ∧
    ∀ run, evalTextRunning ctx run text = evalText ctx text := by
  have hrunning (ctx' : Context) (hscopes : ctx'.scopes = ctx.scopes)
      (hlimits : ctx'.limits = ctx.limits) (run) :
      evalTextRunning ctx' run text = evalText ctx text := by
    rw [← evalTextRunning_evalTextWith ctx]
    exact evalTextRunning_commandless hscopes hsilent hlimits _ run htext
  refine ⟨fun commands view => ?_, hrunning ctx rfl rfl⟩
  rw [← evalTextRunning_evalTextWith]
  exact hrunning { ctx with commands := commands, view := view } rfl rfl _

/-- A property that spells a command, put together from parts. -/
def spellingContext : Context where
  scopes := ⟨Dict.ofList [("call", .text "$\x7b'$' + '(' + name + ')'\x7d"), ("name", .text "cwd")], []⟩
  commands := standardCommands
  view := ⟨⟨∅, ∅, "/"⟩, ∅, none⟩
  limits := .usual

/-- A property that is put together from texts may spell a command, which is not run. -/
theorem evalText_commandless_spelled :
    ¬ OpensCommand "${call}" ∧
      (∀ name s, spellingContext.scopes.lookup? name = some (.text s) → ¬ OpensCommand s) ∧
      (evalText spellingContext "${call}" .fresh).1 = .ok "$(cwd)" ∧
      (evalText spellingContext "$(cwd)" .fresh).1 = .ok "/" ∧
      ∀ run, (evalTextRunning spellingContext run "${call}" .fresh).1 = .ok "$(cwd)" := by
  have htext : ¬ OpensCommand "${call}" := by decide +kernel
  have htexts : ∀ s ∈ textsOf spellingContext.scopes, ¬ OpensCommand s := by decide +kernel
  have hsilent : ∀ name s, spellingContext.scopes.lookup? name = some (.text s) →
      ¬ OpensCommand s := fun _ s hs => htexts s (mem_textsOf hs)
  have hspelled : (evalText spellingContext "${call}" .fresh).1 = .ok "$(cwd)" := by decide +kernel
  have hcalled : (evalText spellingContext "$(cwd)" .fresh).1 = .ok "/" := by decide +kernel
  refine ⟨htext, hsilent, hspelled, hcalled, fun run => ?_⟩
  rw [(evalText_commandless htext hsilent).2 run, hspelled]

end XmlMacros.Substitution
