import EditorLink.Configuration.Basic

/-!
# EditorLink.CommandLine -- the arguments of the program

The first argument that is no option is the endpoint, and the others are package roots. Options may stand anywhere in front of `--`; each may be given
once. The value of an option follows it or, behind an equals sign, belongs to the same argument, and it does not start with a hyphen
unless it is one.
-/

namespace EditorLink.CommandLine

open Text

structure Options where
  endpoint : String
  /-- The file that the configuration comes from. -/
  config : Option String := none
  overrides : Configuration.Overrides := {}

/-- Why arguments give no options. -/
inductive Refusal where
  /-- Help was asked for. -/
  | help
  | usage (reason : String)
  deriving DecidableEq, Repr

def Refusal.exitCode : Refusal → UInt32
  | help => 0
  | usage _ => 2

def usageText : String :=
  "Usage: [OPTIONS] <ENDPOINT> [PACKAGE_ROOT]...\n\n" ++
  "Runs editor extension packages against a host application.\n\n" ++
  "The endpoint is a socket path, unix:///path, tcp://host:port, or - for standard streams.\n\n" ++
  "  -c, --config <FILE>    configuration file (YAML, JSON or TOML)\n" ++
  "      --format <FORMAT>  wire format: msgpack or json\n" ++
  "  -d, --debug            debug logging\n" ++
  "      --log-file <FILE>  write the log to this file\n" ++
  "  -h, --help             print this help"

def Refusal.message : Refusal → String
  | help => usageText
  | usage reason => "error: " ++ reason ++ "\n\n" ++ usageText

/-! ## Options one by one -/

/-- The options that take a value. -/
inductive ValueOption where
  | config
  | format
  | logFile
  deriving DecidableEq, Repr

def ValueOption.name : ValueOption → String
  | config => "--config"
  | format => "--format"
  | logFile => "--log-file"

def ValueOption.ofName? (name : String) : Option ValueOption :=
  [config, format, logFile].find? fun o => o.name = name

/-- What has been given so far; positional arguments have the last one first. -/
structure Given where
  positional : List String := []
  config : Option String := none
  format : Option Wire.Format := none
  debug : Bool := false
  logFile : Option String := none

namespace Given

def twice (name : String) : Refusal := .usage ("the argument '" ++ name ++ "' cannot be used multiple times")

def noValue (name : String) : Refusal := .usage ("a value is required for '" ++ name ++ "'")

def unexpected (arg : String) : Refusal := .usage ("unexpected argument '" ++ arg ++ "' found")

/-- A path that is given once and is not empty. -/
def path (old : Option String) (name value : String) : Except Refusal (Option String) :=
  if old.isSome then .error (twice name)
  else if value = "" then .error (noValue name)
  else .ok (some value)

def set (g : Given) (o : ValueOption) (value : String) : Except Refusal Given :=
  match o with
  | .config => (path g.config o.name value).map fun config => { g with config }
  | .logFile => (path g.logFile o.name value).map fun logFile => { g with logFile }
  | .format =>
    if g.format.isSome then .error (twice o.name)
    else match Configuration.formatOfName? value with
      | some f => .ok { g with format := some f }
      | none => .error (.usage ("invalid value '" ++ value ++ "' for '" ++ o.name ++ "'"))

def setDebug (g : Given) : Except Refusal Given :=
  if g.debug then .error (twice "--debug") else .ok { g with debug := true }

/-- The first positional argument may be any text; the others are paths and not empty. -/
def addPositional (g : Given) (value : String) : Except Refusal Given :=
  if value = "" ∧ !g.positional.isEmpty then .error (noValue "[PACKAGE_ROOT]...")
  else .ok { g with positional := value :: g.positional }

/-! ## Arguments -/

/-- Looks like an option. A hyphen alone does not. -/
def isOption (arg : String) : Bool :=
  arg.startsWith "-" && arg ≠ "-"

/-- What a cluster of short options asks for. -/
inductive Cluster where
  | done (g : Given)
  /-- The next argument is the value of an option. -/
  | needs (o : ValueOption) (g : Given)

/-- The letters of an argument with one hyphen. Behind `c`, what is left is the value. -/
def readCluster (arg : String) (g : Given) : List Char → Except Refusal Cluster
  | [] => .ok (.done g)
  | 'd' :: rest =>
    match g.setDebug with
    | .ok g => readCluster arg g rest
    | .error e => .error e
  | 'h' :: _ => .error .help
  | 'c' :: [] => .ok (.needs .config g)
  | 'c' :: '=' :: value => (g.set .config (String.ofList value)).map .done
  | 'c' :: value => (g.set .config (String.ofList value)).map .done
  | _ :: _ => .error (unexpected arg)

/-- What an argument with two hyphens asks for. -/
def readLong (arg : String) (g : Given) : Except Refusal Cluster :=
  match arg.toList.span (· ≠ '=') with
  | (name, []) =>
    let name := String.ofList name
    if name = "--help" then .error .help
    else if name = "--debug" then g.setDebug.map .done
    else match ValueOption.ofName? name with
      | some o => .ok (.needs o g)
      | none => .error (unexpected arg)
  | (name, _ :: value) =>
    match ValueOption.ofName? (String.ofList name) with
    | some o => (g.set o (String.ofList value)).map .done
    | none => .error (unexpected arg)

def readOption (arg : String) (g : Given) : Except Refusal Cluster :=
  if arg.startsWith "--" then readLong arg g else readCluster arg g arg.toList.tail

/-- Adds the arguments that are left. -/
def read : (args : List String) → Given → Except Refusal Given
  | [], g => .ok g
  | arg :: rest, g =>
    if arg = "--" then rest.foldlM addPositional g
    else if !isOption arg then do read rest (← g.addPositional arg)
    else
      match readOption arg g with
      | .error e => .error e
      | .ok (.done g) => read rest g
      | .ok (.needs o g) =>
        match rest with
        | [] => .error (noValue o.name)
        | value :: rest =>
          if isOption value then .error (noValue o.name)
          else do read rest (← g.set o value)

def options (g : Given) : Except Refusal Options :=
  match g.positional.reverse with
  | [] => .error (.usage "the following required arguments were not provided: <ENDPOINT>")
  | endpoint :: roots =>
    .ok {
      endpoint
      config := g.config
      overrides := { format := g.format, debug := g.debug, logFile := g.logFile, roots } }

end Given

/-- The options that arguments give. -/
def parse (args : List String) : Except Refusal Options := do
  (← Given.read args {}).options

end EditorLink.CommandLine
