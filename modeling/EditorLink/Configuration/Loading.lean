import EditorLink.Configuration.Basic
import EditorLink.Configuration.Sources
import EditorLink.Configuration.Variables
import EditorLink.Files.Tree

/-!
# EditorLink.Configuration.Loading -- configurations from files and variables

Settings come from several sources, each of which is put over those before it, key by key: one file that was asked for, or else the
files that are found; then the environment variables. The result is read as a configuration and checked, and references to variables in its
paths are replaced.

A file is found in the working directory or in the nearest directory above it that has one of its name.
-/

namespace EditorLink.Configuration

open Files

/-! ## Files -/

def unreadable : ConfigError :=
  .parse (.content "the file does not hold settings")

/-- The settings in a file. -/
def readFile (files : Tree) (format : FileFormat) (path : String) : Except ConfigError Value :=
  match ((files.read? path).bind Bytes.text?).bind format.read? with
  | some fields => .ok (.object fields)
  | none => .error unreadable

/-- The directories from some parts of a path up to the top. -/
def upward (parts : List String) : List String :=
  ((List.range (parts.length + 1)).reverse.map parts.take).map fun ps => "/" ++ "/".intercalate ps

/-- The nearest file of this name. -/
def find? (files : Tree) (name : String) : Option String :=
  ((upward (Path.parts files.cwd)).map fun dir => Path.join dir name).find? files.isFile

/-- The files that are looked for, in the order in which they are put over each other. -/
def fileNames : List (String × FileFormat) :=
  [("ext-bridge.toml", .toml), ("ext-bridge.json", .json), ("ext-bridge.yaml", .yaml),
    ("ext-bridge.yml", .yaml)]

/-- The settings in the files that are found. -/
def readFound (files : Tree) : List (String × FileFormat) → Value → Except ConfigError Value
  | [], v => .ok v
  | (name, format) :: rest, v =>
    match find? files name with
    | none => readFound files rest v
    | some path => do
      let w ← readFile files format path
      readFound files rest (overlay v w)

/-! ## Loading -/

/-- Replaces the references to variables in paths. -/
def expandPaths (env : Environment) (c : Configuration) : Except ConfigError Configuration := do
  let roots ← c.packages.roots.mapM (expand env)
  let packageDir ← c.packages.packageDir.mapM (expand env)
  pure { c with packages := { roots, packageDir } }

/-- The configuration that settings from files give together with the variables. -/
def complete (env : Environment) (settings : Value) : Except ConfigError Configuration :=
  match ofValue? .ignored (overlay settings (Variables.settings env)) with
  | none => .error (.parse (.content "a setting has the wrong type or is given twice"))
  | some c => do
    c.validate
    expandPaths env c

/-- The configuration in the files that are found. -/
def loadFound (files : Tree) (env : Environment) : Except ConfigError Configuration := do
  complete env (← readFound files fileNames (.object []))

/-- The configuration in one file. -/
def loadFile (files : Tree) (env : Environment) (path : String) : Except ConfigError Configuration :=
  if !files.isFile path then .error (.parse (.notFound path))
  else
    match (Path.extension? path).bind FileFormat.ofExtension? with
    | none => .error (.parse .unsupported)
    | some format => do complete env (← readFile files format path)

end EditorLink.Configuration
