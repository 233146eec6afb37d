import EditorLink.Files.Path
import EditorLink.Text.Bytes

/-!
# EditorLink.Files.Tree -- files and directories as data

All that loading needs to know about a file system: which files there are and what they contain, which directories there are, and the
directory that relative paths start from. Paths in a tree are lists of parts from the top.
-/

namespace EditorLink.Files

inductive Node where
  | file (content : Bytes)
  | directory

structure Tree where
  /-- Every file and directory below the top, by the parts of its path. -/
  nodes : List (List String × Node) := []
  /-- Where relative paths start. -/
  cwd : String := "/"

namespace Tree

/-- What is found at the end of some parts; the top is a directory. -/
def at? (t : Tree) (parts : List String) : Option Node :=
  if parts.isEmpty then some .directory
  else (t.nodes.find? (·.1 = parts)).map (·.2)

/-- All beginnings of some parts that are shorter and not empty, shortest first. -/
def ancestors (parts : List String) : List (List String) :=
  (List.range parts.length).tail.map parts.take

/-- Why a path leads nowhere. -/
inductive PathFault where
  | missing
  /-- It goes on behind a file. -/
  | notDirectory
  deriving DecidableEq, Repr

def PathFault.message : PathFault → String
  | missing => "No such file or directory (os error 2)"
  | notDirectory => "Not a directory (os error 20)"

def isFileAt (t : Tree) (parts : List String) : Bool :=
  match t.at? parts with
  | some (.file _) => true
  | _ => false

/-- What a path leads to. -/
def find (t : Tree) (path : String) : Except PathFault Node :=
  let parts := Path.resolve t.cwd path
  if path = "" then .error .missing
  else if (ancestors parts).any t.isFileAt then .error .notDirectory
  else match t.at? parts with
    | none => .error .missing
    | some .directory => .ok .directory
    | some (.file content) => if Path.endsInSlash path then .error .notDirectory else .ok (.file content)

/-- The content of a file. -/
def read? (t : Tree) (path : String) : Option Bytes :=
  match t.find path with
  | .ok (.file content) => some content
  | _ => none

def isFile (t : Tree) (path : String) : Bool :=
  (t.read? path).isSome

def isDirectory (t : Tree) (path : String) : Bool :=
  match t.find path with
  | .ok .directory => true
  | _ => false

/-- The names directly below some parts, in the order of their bytes. -/
def names (t : Tree) (parts : List String) : List String :=
  (t.nodes.filterMap fun n =>
    match n.1.reverse with
    | last :: above => if above.reverse = parts then some last else none
    | [] => none).mergeSort fun a b => a ≤ b

/-- The names in a directory. -/
def list (t : Tree) (path : String) : Except PathFault (List String) :=
  match t.find path with
  | .ok .directory => .ok (t.names (Path.resolve t.cwd path))
  | .ok (.file _) => .error .notDirectory
  | .error fault => .error fault

/-! ## Building -/

/-- Adds a directory, unless something is there already. -/
def ensure (t : Tree) (parts : List String) : Tree :=
  if (t.at? parts).isSome then t else { t with nodes := t.nodes ++ [(parts, .directory)] }

/-- Puts a node at a path, and directories above it. -/
def put (t : Tree) (path : String) (node : Node) : Tree :=
  let parts := Path.resolve t.cwd path
  let t := (ancestors parts).foldl ensure t
  { t with nodes := t.nodes.filter (·.1 ≠ parts) ++ [(parts, node)] }

end Tree
end EditorLink.Files
