/- Absolute directories. A relative path is made absolute against the working directory, and the
   path is tidied: empty parts and `.` parts go, `..` parts stay, and so does a slash at the end.
   Two slashes at the start, and no more, have a meaning of their own and stay. The empty path has
   no absolute form. -/
namespace ProgramIndex.Directory

/-- The parts between the slashes of a path that name something. -/
def parts (path : List Char) : List (List Char) :=
  (path.splitOn '/').filter fun part => part ≠ [] ∧ part ≠ ['.']

/-- What a path is made absolute against. -/
def base (workingDirectory path : List Char) : List Char :=
  if ¬ ['/'] <+: path then workingDirectory
  else if ['/', '/'] <+: path ∧ ¬ ['/', '/', '/'] <+: path then ['/', '/']
  else ['/']

/-- A path with one more part, which a slash sets off. -/
def join (path part : List Char) : List Char :=
  if path = [] ∨ path.getLast? = some '/' then path ++ part else path ++ '/' :: part

/-- The absolute form of a path that is not empty. -/
def absolute? (workingDirectory path : String) : Option String :=
  let chars := path.toList
  let tidied := (parts chars).foldl join (base workingDirectory.toList chars)
  -- joining an empty part leaves just the slash
  let text := if chars.getLast? = some '/' then join tidied [] else tidied
  if chars = [] then none else some (String.ofList text)

end ProgramIndex.Directory
