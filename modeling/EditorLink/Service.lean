import EditorLink.CommandLine
import EditorLink.Configuration.Loading
import EditorLink.Dial
import EditorLink.Log
import EditorLink.Session.Control

/-!
# EditorLink.Service -- the program from its arguments to its exit code

A service is one run of the program: it is configured, opens its log, reaches its endpoint, loads the packages, and then serves the host until the
run ends. Everything that the service does is worked out here from the files, the variables and the bytes that the host sends; what is left outside is
to read and to write them.
-/

namespace EditorLink.Service

open Session Extension

/-! ## Before the session -/

/-- The configuration of a run. -/
def configure (files : Files.Tree) (env : Configuration.Environment) (o : CommandLine.Options) :
    Except ConfigError Configuration := do
  let c ← match o.config with
    | some path => Configuration.loadFile files env path
    | none => Configuration.loadFound files env
  let c := c.override o.overrides
  c.validate
  pure c

/-- Why a run ends before anything is logged. -/
inductive StartFault where
  | config (e : ConfigError)
  | logFile (fault : Log.FileFault)

namespace StartFault

def message : StartFault → String
  | config e => (Failure.config e).message
  | logFile fault => (Failure.io fault.message).message

def exitCode : StartFault → UInt32
  | config _ => 1
  | logFile .blocked => 1
  | logFile .occupied => 101

end StartFault

/-- The log of a run, and the files with the log file among them. -/
def openLog (files : Files.Tree) (c : Configuration) : Except StartFault (Log.Sink × Files.Tree) := do
  let sink ← (Log.Sink.ofOptions c.log).mapError .config
  match sink.file with
  | none => pure (sink, files)
  | some path =>
    let files ← (Log.openFile files path).mapError .logFile
    pure (sink, files)

/-! ## The session -/

def setup (env : Configuration.Environment) (c : Configuration) : Setup :=
  { format := c.wire.format
    maxFrameBytes := c.wire.maxFrameBytes.toNat
    maxInFlight := c.dispatch.maxInFlight.toNat
    packageDir := c.packageDir env
    rawHost := true
    farewell := Loading.deactivateAll [] (.finish .done) }

/-- Loads the packages and says that the program is ready. -/
def prepare (files : Files.Tree) (roots : List String) : Program :=
  Loading.loadRoots files [] roots fun n =>
    .look fun w =>
      .report (.packagesLoaded n w.commands.length w.contexts.length w.settings.length)
        (.report .ready (.finish .done))

/-- What a format is called in the log. -/
def formatLabel : Wire.Format → String
  | .msgpack => "Msgpack"
  | .json => "Json"

/-- What is reported before the endpoint is reached. -/
def openingNotices (c : Configuration) (e : Endpoint) : List Notice :=
  [.starting e.text c.packages.roots.length, .connecting e.text e.transport (formatLabel c.wire.format)]

/-- A session that serves the host, once the endpoint is reached. -/
def serve (files : Files.Tree) (env : Configuration.Environment) (c : Configuration) (e : Endpoint) :
    Session :=
  let s := (openingNotices c e).foldl Session.report (Session.ofSetup (setup env c))
  ((s.perform (prepare files c.packages.roots)).start).settle

/-- What became of the attempt to serve. -/
inductive Opening where
  /-- The endpoint is none, or was not reached; the notices up to then. -/
  | refused (notices : List Notice) (failure : Failure)
  | serving (s : Session)

/-- Reaches the endpoint and begins to serve. -/
def opening (files : Files.Tree) (env : Configuration.Environment) (c : Configuration) (endpoint : String) :
    Opening :=
  match Endpoint.parse endpoint with
  | .error e => .refused [] (.config e)
  | .ok e =>
    match e.dial files with
    | .ok () => .serving (serve files env c e)
    | .error fault =>
      .refused (openingNotices c e ++ [.failed (.transport fault)]) (.transport fault)

/-! ## Serving -/

/-- The host sends bytes. -/
def receive (s : Session) (bytes : Bytes) : Session :=
  (s.hostWrite bytes).settle

/-- The host sends nothing any more. -/
def finishInput (s : Session) : Session :=
  s.hostHangUp.settle

/-- What the host has been sent since the last time. -/
def output (s : Session) : Bytes :=
  s.host.inlet.arriving

/-- The notices since the last time, first first; the last one of all says how the run ended. -/
def notices (s : Session) : List Notice :=
  s.journal.notices.reverse ++
    match s.runEnd with
    | none => []
    | some (.ok ()) => [.stopped]
    | some (.error e) => [.failed e]

/-- The code with which the program exits, once the run has ended. -/
def exitCode? (s : Session) : Option UInt32 :=
  s.runEnd.map fun
    | .ok () => 0
    | .error _ => 1

end EditorLink.Service
