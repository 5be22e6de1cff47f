import XmlMacros.Condition
import XmlMacros.Console
import XmlMacros.Directive
import XmlMacros.IncludePath
import XmlMacros.Macro
import XmlMacros.Markup.Doctype
import XmlMacros.Substitution.Eval

/-!
# The state of an expansion

What a run reads (`Environment`), what it changes (`State`), and how it ends early (`Abort`). A run
that ends early keeps its state, so whoever catches the end sees all that happened before it.
-/

namespace XmlMacros.Expansion

open XmlMacros.Markup

/-- Why a file could not be fetched, in words. -/
structure FetchFailure where
  text : String
deriving DecidableEq, Repr

/-- What a run reads and never changes. -/
structure Environment where
  /-- Whether only tags with the prefix are directives. -/
  requirePrefix : Bool
  /-- The commands that texts can call. -/
  commands : Commands
  surroundings : Surroundings
  /-- The text of a file, or why there is none. -/
  fetch : String → Except FetchFailure String
  [limits : Limits]

/-- A file that was loaded before the expansion, with the working path it was included from. Its
definitions are already taken out. -/
structure Preloaded where
  workingPath : Except Mismatch String
  root : Element

/-- What a run changes. -/
structure State where
  scopes : Scopes
  macros : Registry
  /-- The files being processed, the innermost first. -/
  files : FileStack
  /-- The file that commands take for the one being processed. -/
  filename : Option String
  /-- The macros being instantiated, the innermost first. -/
  calls : List Macro
  /-- The directory that relative file names start from, or why there is none. -/
  workingPath : Except Mismatch String
  /-- Whether properties belong to the scope they are defined in; otherwise they are global. -/
  localProperties : Bool
  args : Dict String
  /-- The files that were loaded, in order and with repetitions. -/
  includes : List String
  preloaded : Dict Preloaded
  failed : Dict FetchFailure
  /-- The files that were asked for, in order. -/
  requested : List String
  console : Console

/-- How a run ends early. -/
inductive Abort
  /-- A directive failed. This is reported and the directive dropped. -/
  | fault (f : Fault)
  /-- A file is not a document. -/
  | unreadable (e : Markup.ReadError)
  /-- Directives are nested too deeply. -/
  | overflow
  /-- A setting has a value of the wrong sort. -/
  | mismatch (m : Mismatch)
deriving Repr

/-- Runs: they may end early, and keep their state in any case. -/
abbrev M := ExceptT Abort (StateM State)

/-- Ends with a fault. -/
def fail (cause : Cause) : M α :=
  throw (.fault { cause := cause })

/-- Runs `x` in a changed state. Whether it succeeds or ends early, `leave` is applied to the states
before and after it. -/
def bracket (enter : State → State) (leave : State → State → State) (x : M α) : M α := fun s =>
  let (result, after) := x (enter s)
  (result, leave s after)

/-- A value that depends on a setting, which may be of the wrong sort. -/
def liftMismatch (x : Except Mismatch α) : M α :=
  match x with
  | .ok a => pure a
  | .error m => throw (.mismatch m)

/-! ## Diagnostics -/

/-- Writes a message on a channel. -/
def say (channel : Channel) (message : String) : M Unit := do
  let console ← liftMismatch ((← get).console.say channel message)
  modify ({ · with console := console })

/-- Warns, and says where if the verbosity is high enough. -/
def warn (message : String) : M Unit := do
  say .warning message
  let s ← get
  if ← liftMismatch (s.console.verbosity.isAbove 1) then
    modify ({ · with console := s.console.write (locationText s.files s.calls) })

/-- Logs what happens to a property, indented by the number of scopes around it. -/
def logProperty (action : String) (depth : Nat) (name : String) (value : Property) : M Unit :=
  say .debug (String.ofList (List.replicate depth ' ') ++ action ++ " " ++ name ++ ": "
    ++ value.describe)

/-! ## Properties and texts -/

/-- Writes a property. -/
def define (name : String) (value : Property) (placement : Placement) : M Unit := do
  let depth := (← get).scopes.depthAt placement
  modify fun s => { s with scopes := s.scopes.define name value placement }
  logProperty "set" depth name value

/-- Looks up a property. -/
def resolve (name : String) : M Property := do
  let scopes := (← get).scopes
  match scopes.lookup? name with
  | none => fail (.missingParameter name)
  | some value =>
    logProperty "use" scopes.depth name value
    return value

/-- What the evaluation of a text can see of a state. -/
def State.context (env : Environment) (s : State) : Substitution.Context :=
  { scopes := s.scopes
    commands := env.commands
    view := ⟨env.surroundings, s.args, s.filename⟩
    limits := env.limits }

/-- Logs the properties that an evaluation used. -/
def logUses (depth : Nat) : List (String × Property) → M Unit
  | [] => pure ()
  | (name, value) :: rest => do
    logProperty "use" depth name value
    logUses depth rest

/-- Evaluates a text. A text that cannot be evaluated is reported and stays as it is. -/
def evalText (env : Environment) (text : String) : M String := do
  if !text.toList.contains '$' then return text
  let s ← get
  let (result, evaluation) :=
    (Substitution.evalText (s.context env) text).run Substitution.Evaluation.fresh
  logUses s.scopes.depth evaluation.uses.toList
  match result with
  | .ok value => return value
  | .error fault =>
    let reported : Fault := { cause := .unprocessedText text, reason := some fault.message }
    warn reported.message
    return text

end XmlMacros.Expansion
