import XmlMacros.Text.Path
import XmlMacros.Text.Quoted

/-!
# Files

What a program asks of the files around it (`Files`), and a disk held in memory that answers
(`Disk`). A path is followed step by step from the directory of the run: every step but the last
must lead to a directory. Files are texts; their line ends are read as line feeds.
-/

namespace XmlMacros

/-- Why a file cannot be opened. -/
inductive FileError
  | missing
  | notADirectory
  | isADirectory
deriving DecidableEq, Repr

namespace FileError

/-- The number of an error. -/
def number : FileError → Nat
  | .missing => 2
  | .notADirectory => 20
  | .isADirectory => 21

/-- The wording of an error. -/
def text : FileError → String
  | .missing => "No such file or directory"
  | .notADirectory => "Not a directory"
  | .isADirectory => "Is a directory"

/-- The full message about a path. -/
def message (e : FileError) (path : String) : String :=
  "[Errno " ++ toString e.number ++ "] " ++ e.text ++ ": " ++ Text.quoted path

end FileError

/-- The files around a program. -/
structure Files where
  /-- The text of a file. -/
  read : String → Except FileError String
  /-- Whether a file can be written, once the directories in front of it are made. -/
  canWrite : String → Except FileError Unit

/-- A text with line feeds for all line ends. -/
def withLineFeeds : List Char → List Char
  | [] => []
  | '\r' :: '\n' :: cs => '\n' :: withLineFeeds cs
  | '\r' :: cs => '\n' :: withLineFeeds cs
  | c :: cs => c :: withLineFeeds cs

/-- The steps of a path from the directory of the run. -/
abbrev Steps := List String

/-- A disk: its files and its directories, by the steps that lead to them. -/
structure Disk where
  files : List (Steps × String)
  directories : List Steps
deriving Inhabited

/-- A place that a path leads to. -/
inductive Place
  /-- A file or directory of the disk. -/
  | inside (steps : Steps)
  /-- A directory around the disk, of which nothing is known. -/
  | around
deriving DecidableEq, Repr

namespace Disk

/-- Whether there is a directory. The directory of the run always is. -/
def hasDirectory (d : Disk) (steps : Steps) : Bool :=
  steps.isEmpty || d.directories.contains steps

/-- Whether there is a file. -/
def hasFile (d : Disk) (steps : Steps) : Bool :=
  (d.files.lookup steps).isSome

/-- Whether a place is a directory. -/
def isDirectory (d : Disk) : Place → Bool
  | .inside steps => d.hasDirectory steps
  | .around => true

/-- One step of a path. The step is taken from a directory; it may lead to nothing. -/
def step (d : Disk) (place : Place) (name : String) : Except FileError Place :=
  if !d.isDirectory place then
    match place with
    | .inside steps => .error (if d.hasFile steps then .notADirectory else .missing)
    | .around => .error .missing
  else if name == "" || name == "." then .ok place
  else
    match place with
    | .inside steps =>
      if name != ".." then .ok (.inside (steps ++ [name]))
      else if steps.isEmpty then .ok .around
      else .ok (.inside steps.dropLast)
    | .around => if name == ".." then .ok .around else .error .missing

/-- Where the steps of a path lead. -/
def follow (d : Disk) (names : Steps) (place : Place) : Except FileError Place :=
  names.foldlM d.step place

/-- Where a path starts, and its steps. -/
def stepsOf (path : String) : Place × Steps :=
  match path.toList with
  | '/' :: cs => (.around, (Text.splitAtP (· == '/') cs).map String.ofList)
  | cs => (.inside [], (Text.splitAtP (· == '/') cs).map String.ofList)

/-- The text of a file. -/
def read (d : Disk) (path : String) : Except FileError String := do
  if path == "" then throw .missing
  let (start, names) := stepsOf path
  let place ← d.follow names start
  if d.isDirectory place then throw .isADirectory
  match place with
  | .around => throw .missing
  | .inside steps =>
    match d.files.lookup steps with
    | some text => return String.ofList (withLineFeeds text.toList)
    | none => throw .missing

/-- Makes the directories that steps lead through, as far as that is possible. -/
def makeDirectories (d : Disk) (place : Place) : Steps → Disk
  | [] => d
  | name :: rest =>
    match d.step place name with
    | .error _ => d
    | .ok .around => makeDirectories d .around rest
    | .ok (.inside steps) =>
      if d.hasDirectory steps || d.hasFile steps then makeDirectories d (.inside steps) rest
      else makeDirectories { d with directories := d.directories ++ [steps] } (.inside steps) rest

/-- Makes the directories in front of a file. -/
def makeParents (d : Disk) (path : String) : Disk :=
  let directory := Text.directoryOf path
  if directory == "" then d
  else
    let (start, names) := stepsOf directory
    d.makeDirectories start names

/-- Where a file is written. A path that ends with a slash is that of a directory. -/
def target (d : Disk) (path : String) : Except FileError Steps := do
  if path == "" then throw .missing
  let (start, names) := stepsOf path
  let solid := (names.reverse.dropWhile (· == "")).reverse
  let parent ← d.follow solid.dropLast start
  let place ← d.step parent (solid.getLastD "")
  if solid.length < names.length || d.isDirectory place then throw .isADirectory
  match place with
  | .around => throw .missing
  | .inside steps => return steps

/-- Writes a file, and before it the directories in front of it. -/
def write (d : Disk) (path text : String) : Except FileError Disk := do
  let d := d.makeParents path
  let steps ← d.target path
  return { d with files := d.files.filter (·.1 != steps) ++ [(steps, text)] }

/-- The disk as a program sees it. -/
def view (d : Disk) : Files where
  read := d.read
  canWrite path := (d.write path "").map fun _ => ()

/-- Puts a file on the disk; a path that ends with a slash is that of a directory. -/
def put (d : Disk) (path text : String) : Disk :=
  let d := d.makeParents path
  match d.target path with
  | .error _ => d
  | .ok steps => { d with files := d.files ++ [(steps, text)] }

/-- The disk with some files and directories. -/
def ofList (entries : List (String × String)) : Disk :=
  entries.foldl (fun d (path, text) => d.put path text) ⟨[], []⟩

/-- The files that are new or different on a later disk, with their paths. -/
def changes (before after : Disk) : List (String × String) :=
  (after.files.filter fun (steps, text) => before.files.lookup steps != some text).map
    fun (steps, text) => ("/".intercalate steps, text)

end Disk

end XmlMacros
