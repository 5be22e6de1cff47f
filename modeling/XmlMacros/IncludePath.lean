import XmlMacros.Text.Path
import XmlMacros.Text.Word

/-!
# Paths of included files

A file name in an include is taken relative to the working path, which is the directory of the
file that includes. Paths are joined as texts and never simplified.
-/

namespace XmlMacros.IncludePath

/-- Whether a character separates the steps of a path. -/
def isSeparator (c : Char) : Bool :=
  c == '/' || c == '\\'

/-- Whether a file name does not depend on the working path: it starts with a separator, or with
letters, a colon and a slash. -/
def isAbsolute (filename : String) : Bool :=
  match filename.toList with
  | [] => false
  | c :: cs =>
    isSeparator c ||
      (Text.isLatinLetter c && (cs.dropWhile Text.isLatinLetter).take 2 == [':', '/'])

/-- The path of a file name, seen from a working path. -/
def resolve (filename workingPath : String) : String :=
  if isAbsolute filename then filename else workingPath ++ filename

/-- The directory of a path, with a slash at its end and only slashes between its steps. -/
def base (path : String) : String :=
  match (Text.splitAtP isSeparator path.toList).dropLast with
  | [] => "./"
  | steps => String.ofList ((steps.map (· ++ ['/'])).flatten)

end XmlMacros.IncludePath
