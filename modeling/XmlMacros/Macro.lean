import XmlMacros.Markup.Node
import XmlMacros.Param

/-!
# Macros and places

A macro is a list of nodes with parameters. It remembers where it was defined each time, so that
diagnostics can say where they come from.
-/

namespace XmlMacros

/-- The files being processed, the innermost first. A document without a file has no name. -/
abbrev FileStack := List (Option String)

/-- A macro. -/
structure Macro where
  name : String
  params : Dict Param
  body : List Markup.Node
  /-- The files being processed at each definition, the first definition first. -/
  history : List FileStack
deriving Inhabited

/-- The macros that can be called. -/
abbrev Registry := Dict Macro

/-- The name of a file in diagnostics. -/
def fileLabel (file : Option String) : String :=
  file.getD "string"

/-- The file of a macro's last definition in diagnostics, in parentheses. -/
def Macro.origin (m : Macro) : String :=
  match m.history.getLast? with
  | none => ""
  | some files =>
    match files.head? with
    | some (some "") => "(string)"
    | some file => "(" ++ fileLabel file ++ ")"
    | none => "(string)"

/-- Lines that start with one phrase, and with another from the second line on. -/
def phrasedLines (first other : String) : List String → String
  | [] => ""
  | line :: rest =>
    first ++ " " ++ line ++ "\n" ++ String.join (rest.map fun l => other ++ " " ++ l ++ "\n")

/-- Where something happened: the macros being instantiated in the order given, and the files, the
innermost first. -/
def locationText (files : FileStack) (macros : List Macro) : String :=
  phrasedLines "when instantiating macro:" "instantiated from:"
      (macros.map fun m => m.name ++ " " ++ m.origin)
    ++ phrasedLines (if macros.isEmpty then "when processing file:" else "in file:")
      "included from:" (files.map fileLabel)

end XmlMacros
