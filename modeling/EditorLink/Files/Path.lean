/-!
# EditorLink.Files.Path -- paths as text

Paths are separated by `/`. They are kept as they were written, because reports show them; only looking something up follows what
a path means.
-/

namespace EditorLink.Files.Path

/-- The pieces of a text between the occurrences of a character. -/
def pieces (separator : Char) (text : String) : List String :=
  (text.toList.splitOn separator).map String.ofList

/-- The parts of a path between slashes; empty parts and single dots mean nothing. -/
def parts (path : String) : List String :=
  (pieces '/' path).filter fun p => p ≠ "" ∧ p ≠ "."

def isAbsolute (path : String) : Bool :=
  path.startsWith "/"

/-- A path that ends in a slash can only lead to a directory. -/
def endsInSlash (path : String) : Bool :=
  path.toList.getLast? = some '/'

/-- A path seen from a directory. An absolute path stays what it is. -/
def join (dir path : String) : String :=
  if isAbsolute path || dir = "" then path
  else if endsInSlash dir then dir ++ path
  else dir ++ "/" ++ path

/-- Follows parts from a place, given as the parts that lead there, last first. -/
def follow : (place parts : List String) → List String
  | place, [] => place
  | place, ".." :: rest => follow place.tail rest
  | place, p :: rest => follow (p :: place) rest

/-- The parts from the top of the tree to where a path leads, seen from an absolute directory. -/
def resolve (cwd path : String) : List String :=
  let start := if isAbsolute path then [] else (follow [] (parts cwd))
  (follow start (parts path)).reverse

/-- The last part, unless the path ends in `..` or has no part. -/
def fileName? (path : String) : Option String :=
  match (parts path).getLast? with
  | some ".." => none
  | other => other

/-- What follows the last point of the file name, unless the name starts with that point. -/
def extension? (path : String) : Option String :=
  match fileName? path with
  | none => none
  | some name =>
    match (pieces '.' name).reverse with
    | last :: second :: rest => if second = "" ∧ rest = [] then none else some last
    | _ => none

end EditorLink.Files.Path
