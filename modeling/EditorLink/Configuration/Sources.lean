import EditorLink.Json.Reader
import EditorLink.Toml.Item
import EditorLink.Toml.Reader
import EditorLink.Yaml.Meaning

/-!
# EditorLink.Configuration.Sources -- settings in three file formats

A file of settings is TOML, JSON or YAML, and its name tells which. Whatever the format, the file holds the fields of an object. A file of
TOML or YAML that holds nothing holds no fields.
-/

namespace EditorLink.Configuration

/-! ## Values of the formats -/

mutual
/-- A document as a value. A date is an object with one key, which no setting has. Settings have no floats, so one that is not finite may as well be
zero. -/
def ofToml : Toml.Item → Value
  | .scalar (.text s) => .string s
  | .scalar (.integer i) => .ofInt i
  | .scalar (.float x) => .number (.float (x.getD default))
  | .scalar (.flag b) => .bool b
  | .scalar (.date written) => .object [("date", .string written)]
  | .list items => .array (ofTomlItems items)
  | .table _ entries => .ofFields (ofTomlEntries entries)
  | .tables latest earlier => .array (ofTomlTables earlier [.ofFields (ofTomlEntries latest)])

def ofTomlItems : List Toml.Item → List Value
  | [] => []
  | item :: rest => ofToml item :: ofTomlItems rest

def ofTomlEntries : List (String × Toml.Item) → Fields
  | [] => []
  | (key, item) :: rest => (key, ofToml item) :: ofTomlEntries rest

/-- Tables of an array, the last one first, in front of values. -/
def ofTomlTables : List (List (String × Toml.Item)) → List Value → List Value
  | [], later => later
  | t :: earlier, later => ofTomlTables earlier (.ofFields (ofTomlEntries t) :: later)
end

/-- A scalar as a value. A number that no value can carry may as well be a float, because settings have no floats. -/
def ofMeaning : Yaml.Meaning → Option Value
  | .null => some .null
  | .flag b => some (.bool b)
  | .integer i => some (.number ((Number.ofInt? i).getD (.float default)))
  | .float x => some (.number (.float (x.getD default)))
  | .text s => some (.string s)

/-! ## Files -/

inductive FileFormat where
  | toml
  | json
  | yaml
  deriving DecidableEq, Repr

def FileFormat.ofExtension? (extension : String) : Option FileFormat :=
  if extension = "toml" then some .toml
  else if extension = "json" then some .json
  else if extension = "yaml" ∨ extension = "yml" then some .yaml
  else none

/-- The fields of a document. -/
def FileFormat.read? : FileFormat → String → Option Fields
  | .toml, text => (Toml.read? text).map fun t => Keyed.ofList (ofTomlEntries t)
  | .json, text =>
    match Json.read? text.toList with
    | some (.object fields) => some fields
    | _ => none
  | .yaml, text =>
    match Yaml.Node.read? text with
    | none => none
    | some none => some []
    | some (some n) =>
      match n.entries? with
      | some entries =>
        (entries.mapM fun (e : String × Yaml.Node) =>
          (e.2.toValueWithin ofMeaning (Yaml.Node.maxDepth - 1)).map fun v => (e.1, v)).map Keyed.ofList
      | none => none

end EditorLink.Configuration
