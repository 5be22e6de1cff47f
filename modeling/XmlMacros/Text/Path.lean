/-!
# File names with slashes

The directory of a file name, and the absolute form of a name with all `.` and `..` steps gone.
-/

namespace XmlMacros.Text

/-- The pieces of a list between the places where `p` holds. -/
def splitAtP (p : α → Bool) : List α → List (List α)
  | [] => [[]]
  | a :: rest =>
    if p a then [] :: splitAtP p rest
    else
      match splitAtP p rest with
      | [] => [[a]]
      | piece :: pieces => (a :: piece) :: pieces

/-- The part of a file name before its last slash. Slashes at the end of that part are dropped
unless it has nothing else. -/
def directoryOf (path : String) : String :=
  let head := (path.toList.reverse.dropWhile (· != '/')).reverse
  if head.all (· == '/') then String.ofList head
  else String.ofList (head.reverse.dropWhile (· == '/')).reverse

/-- Goes through the steps of a path: empty steps and `.` are dropped, and `..` takes back the step
before it. At the start of an absolute path there is nothing to take back. -/
def resolveSteps (absolute : Bool) (steps : List (List Char)) : List (List Char) :=
  (steps.foldl (fun done step =>
    if step == [] || step == ['.'] then done
    else if step != ['.', '.'] then step :: done
    else
      match done with
      | [] => if absolute then [] else [step]
      | last :: rest => if last == ['.', '.'] then step :: done else rest) []).reverse

/-- The path without empty steps, `.` and `..`. Two slashes at the start are kept as two, three or
more count as one. -/
def normalizePath (path : String) : String :=
  let cs := path.toList
  let slashes := cs.takeWhile (· == '/')
  let start := match slashes.length with
    | 0 => []
    | 2 => ['/', '/']
    | _ => ['/']
  let steps := resolveSteps (!slashes.isEmpty) (splitAtP (· == '/') cs)
  let joined := start ++ List.intercalate ['/'] steps
  if joined.isEmpty then "." else String.ofList joined

/-- The absolute form of a path, seen from a directory. -/
def absolutePath (directory path : String) : String :=
  match path.toList with
  | '/' :: _ => normalizePath path
  | [] => normalizePath (directory ++ "/")
  | _ => normalizePath (directory ++ "/" ++ path)

end XmlMacros.Text
