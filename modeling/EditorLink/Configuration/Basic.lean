import EditorLink.Configuration.Substitution
import EditorLink.Files.Path
import EditorLink.Record
import EditorLink.Wire.Codec

/-!
# EditorLink.Configuration.Basic -- the settings of a run

A configuration has four sections. Every setting has a default, and every section may be left out. Two settings of two words have a second spelling,
and giving a setting in both spellings is an error.

Values come either from other programs or from files and variables. The former have to be exact; the latter may have more items in a list that
stands for a section, and more keys beside the name of a format, than there is a use for (`Surplus`).
-/

namespace EditorLink

open Text
open Wire (Format)

/-! ## Sections -/

structure Configuration.WireOptions where
  format : Format := .msgpack
  maxFrameBytes : UInt64 := UInt64.ofNat Wire.defaultMaxFrameBytes

structure Configuration.DispatchOptions where
  /-- Most handlers that may be unfinished at one time. -/
  maxInFlight : UInt64 := 1024

structure Configuration.PackageOptions where
  roots : List String := []
  /-- Where user packages are installed. -/
  packageDir : Option String := none

structure Configuration.LogOptions where
  level : String := "info"
  file : Option String := none
  json : Bool := false

structure Configuration where
  wire : Configuration.WireOptions := {}
  dispatch : Configuration.DispatchOptions := {}
  packages : Configuration.PackageOptions := {}
  log : Configuration.LogOptions := {}

namespace Configuration

/-! ## Reading values -/

/-- Whether a value may hold more than there is a use for. -/
inductive Surplus where
  | refused
  | ignored
  deriving DecidableEq, Repr

/-- What a section's value gives for each declared field. -/
def slots? (surplus : Surplus) (declared : List Record.Names) : Value → Option (List (Option Value))
  | .array items =>
    Record.slots? declared (.array (if surplus = .ignored then items.take declared.length else items))
  | v => Record.slots? declared v

def formatOfName? (name : String) : Option Format :=
  if name = "msgpack" then some .msgpack
  else if name = "json" then some .json
  else none

def formatName : Format → String
  | .msgpack => "msgpack"
  | .json => "json"

/-- A format is given by its name, or by an object that has the name as its key and null under it. -/
def format? (surplus : Surplus) : Value → Option Format
  | .string name => formatOfName? name
  | .object ((name, .null) :: rest) =>
    if surplus = .ignored ∨ rest.isEmpty then formatOfName? name else none
  | _ => none

def texts? : Value → Option (List String)
  | .array items => items.mapM Value.text?
  | _ => none

def WireOptions.ofValue? (surplus : Surplus) (v : Value) : Option WireOptions := do
  match ← slots? surplus [["format"], ["maxFrameBytes", "max_frame_bytes"]] v with
  | [format, maxFrameBytes] =>
    let d : WireOptions := {}
    pure {
      format := ← Record.withDefault? d.format (format? surplus) format
      maxFrameBytes := ← Record.withDefault? d.maxFrameBytes Value.natural? maxFrameBytes }
  | _ => none

def DispatchOptions.ofValue? (surplus : Surplus) (v : Value) : Option DispatchOptions := do
  match ← slots? surplus [["maxInFlight", "max_in_flight"]] v with
  | [maxInFlight] =>
    let d : DispatchOptions := {}
    pure { maxInFlight := ← Record.withDefault? d.maxInFlight Value.natural? maxInFlight }
  | _ => none

def PackageOptions.ofValue? (surplus : Surplus) (v : Value) : Option PackageOptions := do
  match ← slots? surplus [["roots"], ["packageDir", "package_dir"]] v with
  | [roots, packageDir] =>
    pure {
      roots := ← Record.withDefault? [] texts? roots
      packageDir := ← Record.optional? Value.text? packageDir }
  | _ => none

def LogOptions.ofValue? (surplus : Surplus) (v : Value) : Option LogOptions := do
  match ← slots? surplus [["level"], ["file"], ["json"]] v with
  | [level, file, json] =>
    let d : LogOptions := {}
    pure {
      level := ← Record.withDefault? d.level Value.text? level
      file := ← Record.optional? Value.text? file
      json := ← Record.withDefault? d.json Value.flag? json }
  | _ => none

/-- The configuration in a value, if every setting in it has its type. -/
def ofValue? (surplus : Surplus) (v : Value) : Option Configuration := do
  match ← slots? surplus [["wire"], ["dispatch"], ["packages"], ["logging"]] v with
  | [wire, dispatch, packages, log] =>
    pure {
      wire := ← Record.withDefault? {} (WireOptions.ofValue? surplus) wire
      dispatch := ← Record.withDefault? {} (DispatchOptions.ofValue? surplus) dispatch
      packages := ← Record.withDefault? {} (PackageOptions.ofValue? surplus) packages
      log := ← Record.withDefault? {} (LogOptions.ofValue? surplus) log }
  | _ => none

/-! ## Writing values -/

def textOrNull : Option String → Value
  | some s => .string s
  | none => .null

def toValue (c : Configuration) : Value :=
  .ofFields [
    ("wire", .ofFields [
      ("format", .string (formatName c.wire.format)), ("maxFrameBytes", .nat c.wire.maxFrameBytes)]),
    ("dispatch", .ofFields [("maxInFlight", .nat c.dispatch.maxInFlight)]),
    ("packages", .ofFields [
      ("roots", .texts c.packages.roots), ("packageDir", textOrNull c.packages.packageDir)]),
    ("logging", .ofFields [
      ("level", .string c.log.level), ("file", textOrNull c.log.file), ("json", .bool c.log.json)])]

/-! ## Rules -/

/-- The smallest frame limit that is accepted. -/
def minFrameBytes : Nat := 1024

/-- The first rule that a configuration breaks. -/
def fault? (c : Configuration) : Option ValidationFault :=
  if c.wire.maxFrameBytes.toNat < minFrameBytes then
    some (.frameLimit minFrameBytes c.wire.maxFrameBytes.toNat)
  else if c.dispatch.maxInFlight = 0 then some .noHandlers
  else if isBlankText c.log.level then some .blankLogLevel
  else none

def validate (c : Configuration) : Except ConfigError Unit :=
  match c.fault? with
  | some fault => .error (.validation fault)
  | none => .ok ()

/-- Where user packages are installed: below the home directory, unless the configuration says otherwise. -/
def packageDir (env : Environment) (c : Configuration) : String :=
  c.packages.packageDir.getD
    (Files.Path.join (Files.Path.join ((env.get? "HOME").getD "") ".silk") "packages")

/-! ## Overrides -/

/-- Settings given on the command line. -/
structure Overrides where
  format : Option Format := none
  debug : Bool := false
  logFile : Option String := none
  /-- Roots that are loaded before the configured ones. -/
  roots : List String := []

/-- The configuration with overrides put in. -/
def override (c : Configuration) (o : Overrides) : Configuration :=
  { c with
    wire := { c.wire with format := o.format.getD c.wire.format }
    packages := { c.packages with roots := o.roots ++ c.packages.roots }
    log := { c.log with
      level := if o.debug then "debug" else c.log.level
      file := o.logFile.orElse fun _ => c.log.file } }

end Configuration
end EditorLink
