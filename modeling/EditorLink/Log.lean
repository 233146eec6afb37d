import EditorLink.Configuration.Basic
import EditorLink.Files.Tree
import EditorLink.Notice

/-!
# EditorLink.Log -- notices on lines

The log has one line for each notice that is severe enough. A line is plain text, or a JSON object whose `fields` hold the message and the
details. The log goes to a file if the configuration names one; the directories above the file are made, and a file that is there is
appended to.
-/

namespace EditorLink.Log

open Text

/-! ## Levels -/

/-- How severe a notice has to be; from `5` on, none is severe enough. -/
abbrev Threshold := Nat

def levelNames : List (String × Threshold) :=
  [("trace", 0), ("debug", Severity.debug.rank), ("info", Severity.info.rank), ("warn", Severity.warn.rank),
    ("error", Severity.error.rank), ("off", Severity.error.rank + 1)]

/-- A level is named in letters of either case, or by a digit, which is greater for a lower threshold. -/
def threshold? (level : String) : Option Threshold :=
  match level.toList with
  | [d] => if '0' ≤ d ∧ d ≤ '5' then some (5 - digitValue d) else none
  | cs => (levelNames.find? fun l => l.1.toList = cs.map Char.toLower).map (·.2)

/-! ## Lines -/

def detailText : Value → String
  | .string s => s
  | v => Json.print v

/-- The name under which the log shows the program. -/
def target : String := "ext_bridge"

def textLine (n : Notice) : String :=
  n.severity.name ++ " " ++ target ++ ": " ++ n.message ++
    String.join (n.details.map fun d => " " ++ d.1 ++ "=" ++ detailText d.2)

def jsonLine (n : Notice) : String :=
  Json.print (.ofFields [
    ("level", .string n.severity.name),
    ("fields", .ofFields (("message", .string n.message) :: n.details)),
    ("target", .string target)])

/-! ## Where the log goes -/

structure Sink where
  threshold : Threshold
  json : Bool
  file : Option String

namespace Sink

/-- The sink that a configuration asks for. -/
def ofOptions (o : Configuration.LogOptions) : Except ConfigError Sink :=
  match threshold? o.level with
  | none => .error (.validation (.logLevel o.level))
  | some threshold =>
    match o.file with
    | none => .ok ⟨threshold, o.json, none⟩
    | some path =>
      if (Files.Path.fileName? path).isNone then .error (.validation (.logFile path))
      else .ok ⟨threshold, o.json, some path⟩

def shows (s : Sink) (n : Notice) : Bool :=
  s.threshold ≤ n.severity.rank

def line (s : Sink) (n : Notice) : String :=
  if s.json then jsonLine n else textLine n

/-- The lines that some notices give. -/
def lines (s : Sink) (ns : List Notice) : List String :=
  (ns.filter s.shows).map s.line

end Sink

/-! ## Log files -/

/-- Why there can be no log file at a path. -/
inductive FileFault where
  /-- A file is where a directory has to be. -/
  | blocked
  /-- A directory is where the file has to be. -/
  | occupied
  deriving DecidableEq, Repr

def FileFault.message : FileFault → String
  | blocked => "Not a directory (os error 20)"
  | occupied => "Is a directory (os error 21)"

/-- The files with a log file at a path, its content kept if it has one already. -/
def openFile (files : Files.Tree) (path : String) : Except FileFault Files.Tree :=
  let parts := Files.Path.resolve files.cwd path
  if (Files.Tree.ancestors parts).any files.isFileAt then .error .blocked
  else match files.at? parts with
    | some .directory => .error .occupied
    | some (.file _) => .ok files
    | none => .ok (files.put path (.file []))

end EditorLink.Log
