import XmlMacros.Command
import XmlMacros.Expr.Reader
import XmlMacros.Limits
import XmlMacros.Scope
import XmlMacros.Substitution.Span

/-!
# Evaluating texts

`evalText` replaces the live spans of a text by their values. A name in an expression stands for the
text of a property, which is evaluated in turn when the name is met; expressions whose evaluation is
under way are remembered, and meeting one of them again is a fault. What one expression computes is
`computeExpr`, told with the evaluation of property texts as a parameter; `evalExpr` closes the
circle.

Evaluation changes nothing but its own record `Evaluation`: the expressions under way, and the
properties that were used. There is only so much room for it: an expression leaves less of it to the
properties that it names, and a parenthesis or a sign to what follows it. An evaluation that needs
more ends as `Stop.exhausted`. How much room there is `Limits` says; an expression that is under way
is not evaluated a second time, so for every text some room is enough.
-/

namespace XmlMacros.Substitution

open XmlMacros.Expr

/-- What an evaluation can see. -/
structure Context where
  scopes : Scopes
  commands : Commands
  view : CommandView
  [limits : Limits]

/-- The record of an evaluation. -/
structure Evaluation where
  /-- The expressions whose evaluation is under way, the outermost first. -/
  active : List String
  /-- The properties that were used, in order. -/
  uses : Array (String × Property)
deriving Inhabited

/-- The record of an evaluation that has not begun. -/
def Evaluation.fresh : Evaluation := ⟨[], #[]⟩

/-- How an evaluation ends without a result. -/
inductive Stop
  | fault (f : Fault)
  /-- There is no room for what is nested in an expression, which is named once it is known. -/
  | exhausted (place : Option String)
deriving DecidableEq, Repr

/-- Evaluations: they may stop early, and keep their record in any case. -/
abbrev EvalM := ExceptT Stop (StateM Evaluation)

/-- Fails with a cause. -/
def fail (cause : Cause) : EvalM α :=
  throw (.fault { cause := cause })

/-- A computation that may fail with a cause, as an evaluation. -/
def liftCause (x : Except Cause α) : EvalM α :=
  match x with
  | .ok a => pure a
  | .error cause => fail cause

/-- Records that a property is used. -/
def recordUse (name : String) (value : Property) : EvalM Unit :=
  modify fun e => { e with uses := e.uses.push (name, value) }

/-- Looks up a property and records that it was used. -/
def resolve (ctx : Context) (name : String) : EvalM Property :=
  match ctx.scopes.lookup? name with
  | none => fail (.missingParameter name)
  | some value => do
    recordUse name value
    return value

/-! ## One expression -/

/-- The token of a name: its property must be a text, which `evalText` evaluates. -/
def substitute (ctx : Context) (evalText : String → EvalM String) (name : String) :
    EvalM Token := do
  match ← resolve ctx name with
  | .block _ => fail (.blockInExpression name)
  | .text s => liftCause (Token.ofText (← evalText s))

/-- The token of a lexeme. White space has none. -/
def tokenOf (ctx : Context) (evalText : String → EvalM String) (l : Lexeme) :
    EvalM (Option Token) :=
  match l with
  | .blank _ => pure none
  | .number n => some <$> liftCause (Token.ofNumeral false n (String.ofList l.chars))
  | .quoted _ body =>
    pure (some (.operand (.text (String.ofList body)) (String.ofList l.chars)))
  | .name cs => some <$> substitute ctx evalText (String.ofList cs)
  | .operator op => pure (some (.operator op))
  | .leftParen => pure (some .leftParen)
  | .rightParen => pure (some .rightParen)

/-- The tokens of a list of lexemes. -/
def tokensOf (ctx : Context) (evalText : String → EvalM String) :
    List Lexeme → EvalM (List Token)
  | [] => pure []
  | l :: rest => do
    let head ← tokenOf ctx evalText l
    return head.toList ++ (← tokensOf ctx evalText rest)

/-- The tokens of an expression. What no lexeme fits is a fault, once all names before it are
replaced. -/
def tokenize (ctx : Context) (evalText : String → EvalM String) (expr : String) :
    EvalM (List Token) := do
  let (ls, left) := lexemes expr.toList
  let tokens ← tokensOf ctx evalText ls
  if left.isEmpty then return tokens else fail (.invalidSyntax (String.ofList left))

/-- The text that a list of tokens evaluates to, with so much room for parentheses and signs. -/
def valueWithin (room : Nat) (tokens : List Token) : EvalM String :=
  match evalToText room tokens with
  | .ok text => pure text
  | .error (.arithmetic .nestingTooDeep) => throw (.exhausted none)
  | .error cause => fail cause

/-- The text of an expression's value. -/
def computeExpr (ctx : Context) (room : Nat) (evalText : String → EvalM String) (expr : String) :
    EvalM String := do
  let tokens ← tokenize ctx evalText expr
  valueWithin room tokens

/-- The end of an evaluation with a place, unless it has one. -/
def Stop.orSuffix (place : String) : Stop → Stop
  | .fault f => .fault (f.orSuffix place)
  | .exhausted known => .exhausted (some (known.getD place))

/-- Names the expression that an evaluation ended in, unless one is named already. -/
def located (expr : String) (x : EvalM α) : EvalM α :=
  tryCatch x fun stop => throw (stop.orSuffix ("when evaluating expression '" ++ expr ++ "'"))

/-- Runs an evaluation with an expression under way. Whether it succeeds or fails, the expression is
taken back afterwards. -/
def whileActive (expr : String) (x : EvalM α) : EvalM α := fun e =>
  let (result, e) := x { e with active := e.active ++ [expr] }
  (result, { e with active := e.active.dropLast })

/-! ## Texts -/

/-- What a command returns, where `nested` evaluates its text before it is cut into words. -/
def runCommand (ctx : Context) (nested : List Char → EvalM String) (body : List Char) :
    EvalM String := do
  let command ← nested body
  match Text.words command with
  | [] => fail .emptyCommand
  | name :: arguments =>
    match ctx.commands.get? name with
    | none => fail (.unknownCommand name ctx.commands.keys)
    | some c =>
      match c.call ctx.view arguments with
      | .ok text => return text
      | .error (.fault f) => throw (.fault f)
      | .error (.other text) =>
        throw (.fault { cause := .commandFailed command, reason := some text })

/-- The text that a span is replaced by. `expr` evaluates expressions, `nested` the texts of
commands. -/
def evalSpan (ctx : Context) (expr : String → EvalM String) (nested : List Char → EvalM String) :
    Span → EvalM String
  | .expression body => expr (String.ofList body)
  | .command body => runCommand ctx nested body
  | .escape extra bracket => pure (String.ofList (List.replicate extra '$' ++ [bracket]))
  | .plain cs => pure (String.ofList cs)
  | .dollar => pure "$"

/-- The texts that spans are replaced by, one after the other. -/
def evalSpans (ctx : Context) (expr : String → EvalM String) (nested : List Char → EvalM String) :
    List Span → EvalM String
  | [] => pure ""
  | s :: rest => do
    let head ← evalSpan ctx expr nested s
    return head ++ (← evalSpans ctx expr nested rest)

/-- Evaluates a text. The first argument bounds how deeply commands are nested in it; no text has
more levels than characters. -/
def evalChars (ctx : Context) (expr : String → EvalM String) : Nat → List Char → EvalM String
  | 0, cs => pure (String.ofList cs)
  | depth + 1, cs => evalSpans ctx expr (evalChars ctx expr depth) (spans cs)

/-- Evaluates a text, where `expr` evaluates the expressions in it. -/
def evalTextWith (ctx : Context) (expr : String → EvalM String) (text : String) : EvalM String :=
  evalChars ctx expr text.toList.length text.toList

/-- Evaluates an expression with so much room. The properties that it names have less room than it
has itself. -/
def evalExpr (ctx : Context) : Nat → String → EvalM String
  | 0, _ => throw (.exhausted none)
  | room + 1, expr => do
    let active := (← get).active
    if expr ∈ active then fail (.cyclicReference (active ++ [expr]))
    else
      whileActive expr
        (located expr (computeExpr ctx (room + 1) (evalTextWith ctx (evalExpr ctx room)) expr))

/-- Evaluates a text with so much room for the expressions in it. -/
def evalTextWithin (ctx : Context) (room : Nat) (text : String) : EvalM String :=
  evalTextWith ctx (evalExpr ctx room) text

/-- The fault that an evaluation ended with. What there was no room for is nested too deeply. -/
def Stop.toFault : Stop → Fault
  | .fault f => f
  | .exhausted place => { cause := .arithmetic .nestingTooDeep, suffix := place }

/-- Evaluates a text: live spans are replaced by their values. -/
def evalText (ctx : Context) (text : String) : ExceptT Fault (StateM Evaluation) String :=
  ExceptT.adapt Stop.toFault (evalTextWithin ctx ctx.limits.evaluation text)

end XmlMacros.Substitution
