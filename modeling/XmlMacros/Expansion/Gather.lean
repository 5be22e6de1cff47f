import XmlMacros.Expansion.Expand
import XmlMacros.Markup.Search

/-!
# Gathering definitions first

In this order of processing all properties and then all macros below the root are defined before
anything is expanded, wherever they stand, and taken out of the tree. The files that the tree
includes are loaded, level by level, and treated in the same way; those that were taken in before
are not loaded again.
-/

namespace XmlMacros.Expansion

open XmlMacros.Markup

/-- Whether an element is a definition in a state. -/
def isDefinition (env : Environment) (s : State) (e : Element) : Bool :=
  (classify env s e).isDefinition

/-- Expands elements for what they define. -/
def performAll (env : Environment) (depth : Nat) : List Element → M Unit
  | [] => pure ()
  | e :: rest => do
    let _ ← expandNode env depth e.node
    performAll env depth rest

/-- Defines all properties, then all macros below a root, in document order. What stands inside of a
definition is not looked at. -/
def grabDefinitions (env : Environment) (depth : Nat) (root : Element) : M Unit := do
  let s ← get
  performAll env depth
    (root.findElements (classify env s · == .property) (isDefinition env s))
  let s ← get
  performAll env depth
    (root.findElements (classify env s · == .defineMacro) (isDefinition env s))

/-- A tree without its definitions. -/
def stripDefinitions (env : Environment) (root : Element) : M Element := do
  let s ← get
  return root.strip (isDefinition env s)

/-- The paths of the files that elements include and that were not loaded before, in document order
and each once. `paths` are those found so far. -/
def includePaths (env : Environment) (workingPath : Except Mismatch String) :
    List Element → List String → M (List String)
  | [], paths => return paths
  | e :: rest, paths => do
    match e.attr? "filename" with
    | none => includePaths env workingPath rest paths
    | some filename =>
      let path ← includePath (← evalText env filename) workingPath
      let s ← get
      if paths.contains path || s.preloaded.contains path || s.failed.contains path then
        includePaths env workingPath rest paths
      else includePaths env workingPath rest (paths ++ [path])

/-- Asks for files one after the other. -/
def fetchAll (env : Environment) : List String → M (List (String × Except FetchFailure String))
  | [] => pure []
  | path :: rest => do
    let text ← fetch env path
    return (path, text) :: (← fetchAll env rest)

/-- Runs `x` with a file on top of the file stack. -/
def withFile (path : String) (x : M α) : M α :=
  bracket (pushFile path) (fun before after => restoreFiles before.files after) x

/-- Takes in fetched files: their definitions are gathered, and `nested` looks for the files that
they include in turn. -/
def takeFiles (env : Environment) (depth : Nat) (workingPath : Except Mismatch String)
    (nested : Element → Except Mismatch String → M Unit) :
    List (String × Except FetchFailure String) → M Unit
  | [] => pure ()
  | (path, .error failure) :: rest => do
    modify fun s => { s with failed := s.failed.insert path failure }
    takeFiles env depth workingPath nested rest
  | (path, .ok text) :: rest => do
    recordInclude path
    withFile path do
      let root ← parseRoot text
      grabDefinitions env depth root
      let root ← stripDefinitions env root
      modify fun s => { s with preloaded := s.preloaded.insert path ⟨workingPath, root⟩ }
      nested root (.ok (IncludePath.base path))
    takeFiles env depth workingPath nested rest

/-- Loads all files that a tree includes, and those that they include, and gathers their
definitions. `levels` bounds how deeply files include each other. -/
def collectIncludes (env : Environment) (depth : Nat) :
    Nat → Element → Except Mismatch String → M Unit
  | 0, _, _ => throw .overflow
  | levels + 1, root, workingPath => do
    let s ← get
    let elements := root.findElements (classify env s · == .includeFile) (fun _ => false)
    let paths ← includePaths env workingPath elements []
    let fetched ← fetchAll env paths
    takeFiles env depth workingPath (collectIncludes env depth levels) fetched

/-- Makes all properties global from now on. -/
def disableLocalProperties : M Unit := do
  if (← get).localProperties then
    warn ("local properties are not supported when gathering definitions first, "
      ++ "all properties are global")
    modify fun s => { s with localProperties := false }

/-- Defines all that a tree and the files it includes define, and gives back the tree without its
definitions. -/
def gather (env : Environment) (depth : Nat) (root : Element) : M Element := do
  disableLocalProperties
  grabDefinitions env depth root
  let root ← stripDefinitions env root
  collectIncludes env depth depth root (← get).workingPath
  return root

end XmlMacros.Expansion
