import XmlMacros.Dict
import XmlMacros.Fault
import XmlMacros.Text.Path

/-!
# Substitution commands

A span `$(name arguments)` is replaced by what the command called `name` returns. The commands
that every run has read environment variables, package paths, substitution arguments and the name
of the current file; they change nothing. A run may bring commands of its own.
-/

namespace XmlMacros

/-- Why a command fails. -/
inductive CommandFailure
  /-- A fault that is reported as it is. -/
  | fault (f : Fault)
  /-- Any other failure, with its text. -/
  | other (text : String)
deriving Repr

/-- The surroundings of a run, as far as commands can see them. -/
structure Surroundings where
  envVars : Dict String
  packages : Dict String
  directory : String

/-- What a command can see: the surroundings, and of the run its substitution arguments and the
file that is being processed. -/
structure CommandView where
  surroundings : Surroundings
  args : Dict String
  filename : Option String

/-- A command. -/
inductive Command
  | env
  | optenv
  | dirname
  | arg
  | find
  | cwd
  /-- A command that a run brings along. -/
  | custom (call : List String → Except CommandFailure String)

/-- The commands of a run by name. -/
abbrev Commands := Dict Command

/-- The commands that every run has. -/
def standardCommands : Commands :=
  Dict.ofList [("env", .env), ("optenv", .optenv), ("dirname", .dirname), ("arg", .arg),
    ("find", .find), ("cwd", .cwd)]

/-- Calls a command with its arguments. -/
def Command.call (view : CommandView) (command : Command) (arguments : List String) :
    Except CommandFailure String :=
  match command, arguments with
  | .env, [name] =>
    match view.surroundings.envVars.get? name with
    | some value => .ok value
    | none => .error (.other ("environment variable " ++ Text.quoted name ++ " is not set"))
  | .env, _ =>
    .error (.other ("$(env var) command only accepts one argument ["
      ++ " ".intercalate arguments ++ "]"))
  | .optenv, [] => .error (.other "$(optenv var) must specify an environment variable")
  | .optenv, name :: rest =>
    .ok ((view.surroundings.envVars.get? name).getD (" ".intercalate rest))
  | .dirname, _ =>
    match view.filename with
    | some filename =>
      if filename == "" then .error (.other noFileText)
      else .ok (Text.absolutePath view.surroundings.directory (Text.directoryOf filename))
    | none => .error (.other noFileText)
  | .arg, [] => .error (.other "$(arg var) must specify a variable name")
  | .arg, [name] =>
    match view.args.get? name with
    | some value => .ok value
    | none => .error (.other ("Undefined substitution argument " ++ name))
  | .arg, _ =>
    .error (.other ("$(arg var) may only specify one arg [" ++ " ".intercalate arguments ++ "]"))
  | .find, [name] =>
    match view.surroundings.packages.get? name with
    | some path => .ok path
    | none => .error (.other ("resource not found: " ++ name))
  | .find, _ =>
    .error (.other ("$(find pkg) accepts exactly one argument ["
      ++ " ".intercalate arguments ++ "]"))
  | .cwd, _ => .ok view.surroundings.directory
  | .custom call, _ => call arguments
where
  /-- The text of the failure when the current file has no name. -/
  noFileText : String :=
    "Cannot substitute $(dirname), no file/directory information available."

end XmlMacros
