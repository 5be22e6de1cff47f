import XmlMacros.Program

/-!
# The command line

The outer layer of the program. A run is a function of the files that it asks for, so it is repeated
with more and more files read until it asks for no other.
-/

namespace XmlMacros

/-- What is known of the files around the program. -/
structure Known where
  texts : List (String × Except FileError String)
  /-- Files that cannot be written. -/
  blocked : List (String × FileError)

/-- The files as far as they are known. -/
def Known.files (k : Known) : Files where
  read path := (k.texts.lookup path).getD (.error .missing)
  canWrite path :=
    match k.blocked.lookup path with
    | some e => .error e
    | none => .ok ()

/-- The error that a system call ended with. -/
def fileErrorOf : IO.Error → FileError
  | .inappropriateType _ code _ => if code == 21 then .isADirectory else .notADirectory
  | _ => .missing

/-- Reads a file. -/
def readText (path : String) : IO (Except FileError String) := do
  try
    let text ← IO.FS.readFile path
    return .ok (String.ofList (withLineFeeds text.toList))
  catch e => return .error (fileErrorOf e)

/-- Writes a file, and before it the directories in front of it. -/
def writeText (path text : String) : IO (Option FileError) := do
  try
    let directory := Text.directoryOf path
    if directory != "" then IO.FS.createDirAll directory
  catch _ => pure ()
  try
    IO.FS.writeFile path text
    return none
  catch e => return some (fileErrorOf e)

/-- The variables of the environment. -/
def readVariables : IO (Dict String) := do
  let text ← try IO.FS.readFile "/proc/self/environ" catch _ => pure ""
  let entries := (Text.splitAtP (·.toNat == 0) text.toList).filterMap fun cs =>
    (Options.splitAtMark? ['='] cs).map fun (name, value) =>
      (String.ofList name, String.ofList value)
  return Dict.ofList entries

/-- Runs the program until all files that it asks for are known and its output is written. -/
partial def runKnown (surroundings : Surroundings) (words : List String) (k : Known) :
    IO Outcome := do
  let outcome := Program.run k.files surroundings words
  match outcome.consulted.find? fun path => (k.texts.lookup path).isNone with
  | some path =>
    runKnown surroundings words { k with texts := (path, ← readText path) :: k.texts }
  | none =>
    match outcome.output with
    | none => return outcome
    | some (path, text) =>
      match ← writeText path text with
      | none => return outcome
      | some e => runKnown surroundings words { k with blocked := (path, e) :: k.blocked }

end XmlMacros

/-- Expands the document that the command line names. -/
def main (words : List String) : IO UInt32 := do
  let surroundings : XmlMacros.Surroundings :=
    ⟨← XmlMacros.readVariables, XmlMacros.Dict.empty, (← IO.currentDir).toString⟩
  let outcome ← XmlMacros.runKnown surroundings words ⟨[], []⟩
  (← IO.getStdout).putStr outcome.stdout
  (← IO.getStderr).putStr outcome.stderr
  return outcome.exit.toUInt32
