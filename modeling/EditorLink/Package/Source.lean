import EditorLink.Failure
import EditorLink.Files.Tree
import EditorLink.Json.Reader
import EditorLink.Package.Manifest
import EditorLink.Yaml.Meaning

/-!
# EditorLink.Package.Source -- manifests in package directories

A package directory has one manifest: the first of `package.json`, `package.yml` and `package.yaml` that is a file there. A manifest is
a record, and its name must not be blank.

In JSON a field is what it is written as. In YAML a field that has to be a text takes the text of any scalar, so that a version may be written `1.0`
without quotes, and a record is always a mapping.
-/

namespace EditorLink.Package

open Registry (Setting)

/-- Manifest file names, in the order in which they are looked for. -/
def manifestFiles : List String := ["package.json", "package.yml", "package.yaml"]

/-- The fields of a manifest record, in their order. -/
def manifestFields : List Record.Names :=
  [["name"], ["version"], ["description"], ["main"], ["menu"], ["config"]]

namespace Manifest

/-! ## JSON -/

/-- Declared settings by name; of a name given twice the last declaration counts. -/
def settingsOfJson? : Value → Option (Keyed Setting)
  | .object fields =>
    (fields.mapM fun f => (Setting.ofValue? f.2).map fun s =>
      (f.1, { s with default? := s.default?.map Json.inOrder })).map Keyed.ofList
  | _ => none

/-- The manifest in a JSON value whose fields are as they were written. -/
def ofJson? (v : Value) : Option Manifest := do
  match ← Record.slots? manifestFields v with
  | [name, version, description, main, menu, settings] =>
    pure {
      name := ← Record.required? Value.text? name
      version := ← Record.optional? Value.text? version
      description := ← Record.optional? Value.text? description
      main := ← Record.optional? Value.text? main
      menu := ← Record.optional? Value.text? menu
      settings := ← Record.withDefault? [] settingsOfJson? settings }
  | _ => none

def readJson? (text : String) : Option Manifest :=
  (Json.readAsWritten? Json.maxDepth text.toList).bind ofJson?

end Manifest

/-! ## YAML -/

open Yaml (Node Meaning)

/-- What a mapping gives for one field; the outer `none` means twice. -/
def nodeSlot? (entries : Keyed Node) (name : String) : Option (Option Node) :=
  match entries.filter fun e => e.1 = name with
  | [] => some none
  | [e] => some (some e.2)
  | _ => none

/-- A node that may be null, which is the same as none. -/
def presentNode? : Node → Option (Option Node)
  | .scalar tag true s =>
    match tag with
    | none => some (if s = "" || Meaning.isNull s then none else some (.scalar tag true s))
    | some t =>
      if t ≠ Node.standardTags ++ "null" then some (some (.scalar tag true s))
      else if Meaning.isNull s then some none
      else none
  | n => some (some n)

/-- A field that may be absent or null. -/
def optionalNode? {α : Type} (read : Node → Option α) : Option Node → Option (Option α)
  | none => some none
  | some n =>
    match presentNode? n with
    | none => none
    | some none => some none
    | some (some n) => (read n).map some

/-- A scalar in a default. Integers beyond sixty-four bits are refused, and a float that is not finite is null. -/
def ofMeaning : Meaning → Option Value
  | .null => some .null
  | .flag b => some (.bool b)
  | .integer i => (Number.ofInt? i).map .number
  | .float (some x) => some (.number (.float x))
  | .float none => some .null
  | .text s => some (.string s)

/-- The type that a scalar names, by its text or, when there is nothing else, by its tag. -/
def typeOfNode? : Node → Option Registry.SettingType
  | .scalar (some tag) plain s =>
    match Text.dropLead? ['!'] tag.toList with
    | some name =>
      if plain && (s = "" || Meaning.isNull s) then some (.ofTag (String.ofList name)) else none
    | none => some (.ofTag s)
  | .scalar none _ s => some (.ofTag s)
  | _ => none

/-- Containers around a default: the manifest, its settings and the declaration. -/
def defaultDepth : Nat := Node.maxDepth - 3

def settingOfNode? (n : Node) : Option Setting := do
  let entries ← n.entries?
  let type ← (← nodeSlot? entries "type").bind typeOfNode?
  let fallback ← optionalNode? (Node.toValueWithin ofMeaning defaultDepth) (← nodeSlot? entries "default")
  pure ⟨type, fallback⟩

def settingsOfNode? (n : Node) : Option (Keyed Setting) := do
  let entries ← n.entries?
  let settings ← entries.mapM fun (e : String × Node) => (settingOfNode? e.2).map fun s => (e.1, s)
  pure (Keyed.ofList settings)

namespace Manifest

def ofNode? (n : Node) : Option Manifest := do
  let entries ← n.entries?
  pure {
    name := ← (← nodeSlot? entries "name").bind Node.text?
    version := ← optionalNode? Node.text? (← nodeSlot? entries "version")
    description := ← optionalNode? Node.text? (← nodeSlot? entries "description")
    main := ← optionalNode? Node.text? (← nodeSlot? entries "main")
    menu := ← optionalNode? Node.text? (← nodeSlot? entries "menu")
    settings := ← match ← nodeSlot? entries "config" with
      | none => some []
      | some n => settingsOfNode? n }

def readYaml? (text : String) : Option Manifest :=
  match Node.read? text with
  | some (some n) => ofNode? n
  | _ => none

/-! ## Directories -/

/-- The manifest in the content of a file of this name. -/
def read? (path : String) (content : Bytes) : Option Manifest := do
  let text ← Bytes.text? content
  if Files.Path.extension? path = some "json" then readJson? text else readYaml? text

/-- The manifest of a package directory. -/
def load (files : Files.Tree) (dir : String) : Except PackageError Manifest :=
  match (manifestFiles.map (Files.Path.join dir)).find? files.isFile with
  | none => .error (.missingManifest dir)
  | some path =>
    match (files.read? path).bind (read? path) with
    | none => .error (.manifest path (.content "the file is not a manifest"))
    | some m =>
      if Text.isBlankText m.name then .error (.manifest path .blankName) else .ok m

end Manifest
end EditorLink.Package
