import XmlMacros.Markup.Printer
import XmlMacros.Options
import XmlMacros.Yaml.Value

/-!
# The program

A run of the program: it reads its options and its input, expands the document, and writes the
result or the names of the files that the document includes. All of that is a function of the
command line and the files; `Outcome` says what the run prints and writes. What the limits of a run
are and how texts are loaded is left open up to the end, where the program is built.
-/

namespace XmlMacros

open XmlMacros.Markup

/-- A failure that ends a run without being handled. -/
inductive Escape
  | abort (a : Expansion.Abort)
  | config (e : ConfigError)
  | write (e : WriteError)

/-- How a run ends. -/
structure Outcome where
  exit : Nat
  stdout : String := ""
  stderr : String := ""
  /-- The file that was written, with its text. -/
  output : Option (String × String) := none
  /-- The failure that ended the run, if it was not handled. -/
  escape : Option Escape := none
  /-- The files that were asked for, in order. -/
  consulted : List String := []

/-- The wording of an early end. -/
def Expansion.Abort.message : Expansion.Abort → String
  | .fault f => f.message
  | .unreadable .malformed => "XML parsing error: malformed document"
  | .unreadable .redeclared => ""
  | .overflow => Arithmetic.message .nestingTooDeep
  | .mismatch m => m.message

namespace Program

/-- The fault that a file cannot be opened for output. -/
def outputFault (e : FileError) (path : String) : Fault :=
  { cause := .stated .general (some "Failed to open output:"), reason := some (e.message path) }

/-- The fault that the input cannot be opened. -/
def inputFault (e : FileError) (path : String) : Fault :=
  { cause := .stated .general (some (e.text ++ ": " ++ path)) }

/-- Expands the document of a file, and opens the output. -/
def process [Limits] (files : Files) (env : Expansion.Environment) (c : Config) (input : String)
    (output : Option String) : Expansion.M Document := do
  match files.read input with
  | .error e => throw (.fault (inputFault e input))
  | .ok text =>
    match Markup.read text with
    | .error e => throw (.unreadable e)
    | .ok d =>
      let d ← Expansion.expandDocument env Expansion.depthLimit c.inOrder.isTruthy d
      if let some path := output then
        if let .error e := files.canWrite path then throw (.fault (outputFault e path))
      return d

/-- The lines that are printed after a document was found to be malformed. -/
def malformedHints : String :=
  "\nCheck that:\n - Your XML is well-formed\n - You have the xacro xmlns declaration: "
    ++ "xmlns:xacro=\"http://www.ros.org/wiki/xacro\"\n"

/-- How a run ends that ended early. A malformed document and, unless the verbosity is high, every
other failure is reported and ends the run with an error. -/
def reportAbort (abort : Expansion.Abort) (s : Expansion.State) : Outcome :=
  let escaping (console : Console) (a : Expansion.Abort) : Outcome :=
    { exit := 1, stderr := console.text, escape := some (.abort a) }
  let mark := match abort with
    | .unreadable .malformed => ""
    | _ => Channel.error.mark.getD ""
  let console := s.console.write (mark ++ abort.message ++ "\n")
  match console.verbosity.isAbove 0, console.verbosity.isAbove 1 with
  | .error m, _ | _, .error m => escaping console (.mismatch m)
  | .ok located, .ok traced =>
    let console := if located then console.write (locationText s.files s.calls) else console
    match abort with
    | .unreadable .malformed =>
      { exit := 2, stderr := if located then console.text ++ malformedHints else console.text }
    | abort =>
      if traced then escaping (console.write "\n") abort
      else { exit := 2, stderr := console.text }

/-- A text with spaces after it, up to a width. -/
def padRight (width : Nat) (s : String) : String :=
  s ++ String.ofList (List.replicate (width - s.toList.length) ' ')

/-- The comments in front of a document that the program wrote. -/
def banner (input : String) : List Misc :=
  let rule := " " ++ String.ofList (List.replicate 83 '=') ++ " "
  [rule,
    " |    This document was autogenerated by xacro_parser from " ++ padRight 23 input ++ " | ",
    " |    EDITING THIS FILE BY HAND IS NOT RECOMMENDED  " ++ padRight 30 "" ++ " | ",
    rule].map Misc.comment

/-- A list with only the first of equal items kept. -/
def distinct (items : List String) : List String :=
  items.foldl (fun done item => if done.contains item then done else done ++ [item]) []

/-- The text that a run writes. -/
def render (o : Options) (input : String) (s : Expansion.State) (d : Document) :
    Except WriteError String :=
  if o.justDeps then .ok (" ".intercalate (distinct s.includes) ++ "\n")
  else do
    let text ← { d with before := banner input ++ d.before }.write ⟨"  ", "\n"⟩
    return text ++ "\n"

/-- A run with given options and input. -/
def runWith [Limits] [Yaml.Loader] (files : Files) (surroundings : Surroundings) (o : Options)
    (input : String) : Outcome :=
  match o.makeConfig files with
  | .error (.fault f) =>
    { exit := 2, stderr := Channel.error.mark.getD "" ++ f.message ++ "\n",
      consulted := o.configFile?.toList }
  | .error e => { exit := 1, escape := some (.config e), consulted := o.configFile?.toList }
  | .ok c =>
    let c := if c.workingPath.isTruthy then c
      else { c with workingPath := .text (IncludePath.base input) }
    let fetch (path : String) : Except Expansion.FetchFailure String :=
      match files.read path with
      | .ok text => .ok text
      | .error e => .error ⟨e.message path⟩
    let env := c.environment Dict.empty surroundings fetch
    let start := c.start (some input) { Console.fresh with verbosity := c.reporting }
    let (result, s) := (process files env c input o.output).run start
    let outcome : Outcome := match result with
      | .error abort => reportAbort abort s
      | .ok d =>
        match render o input s d, o.output with
        | .ok text, none => { exit := 0, stdout := text, stderr := s.console.text }
        | .ok text, some path =>
          { exit := 0, stderr := s.console.text, output := some (path, text) }
        | .error e, output =>
          { exit := 1, stderr := s.console.text, output := output.map (·, ""),
            escape := some (.write e) }
    { outcome with consulted := o.configFile?.toList ++ input :: s.requested }

/-- What is printed if the command line does not lead to a run. -/
def refuse : Refusal → Outcome
  | .help => { exit := 0, stdout := helpText }
  | refusal =>
    { exit := 2, stderr := usageText ++ "\nxacro_parser: error: " ++ refusal.message ++ "\n" }

/-- A run of the program. -/
def run [Limits] [Yaml.Loader] (files : Files) (surroundings : Surroundings)
    (words : List String) : Outcome :=
  match Options.parse true words with
  | .ok (o, input) => runWith files surroundings o (input.getD "")
  | .error refusal => refuse refusal

end Program

/-! ## As it is built -/

/-- The limits of the program. -/
instance : Limits := .usual

/-- The program loads configurations with the reader for YAML, up to a depth of its own. -/
instance : Yaml.Loader := ⟨Yaml.Graph.read 400⟩

end XmlMacros
