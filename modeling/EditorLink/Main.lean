import EditorLink.Service

/-!
# EditorLink.Main -- the program

Reads what `EditorLink.Service` has to know from the file system, the environment and the standard input, and writes what it answers. The host
is on the standard streams; the log goes to its file or to the standard error.
-/

namespace EditorLink.Main

open Files

/-! ## Reading the surroundings -/

/-- The variables of this process. -/
def environment : IO Configuration.Environment := do
  let bytes ← IO.FS.readBinFile "/proc/self/environ"
  let entries := ((Bytes.text? bytes.toList).getD "").splitOn "\x00"
  pure (entries.filterMap fun entry =>
    match entry.splitOn "=" with
    | name :: value :: rest => some (name, "=".intercalate (value :: rest))
    | _ => none)

/-- Adds the file at a path, if there is one. -/
def addFile (t : Tree) (path : String) : IO Tree := do
  try
    let content ← IO.FS.readBinFile path
    pure (t.put path (.file content.toList))
  catch _ => pure t

/-- Adds the directory at a path, if there is one, and gives the names in it. -/
def addDirectory (t : Tree) (path : String) : IO (Tree × List String) := do
  try
    let entries ← (← IO.FS.realPath path).readDir
    pure (t.put path .directory, entries.toList.map (·.fileName))
  catch _ => pure (t, [])

/-- Adds what loading a package looks at. -/
def addPackage (t : Tree) (dir : String) : IO Tree := do
  let (t, _) ← addDirectory t dir
  if t.isDirectory dir then Package.manifestFiles.foldlM (fun t name => addFile t (Path.join dir name)) t
  else pure t

/-- Adds what loading a package root looks at. -/
def addRoot (t : Tree) (root : String) : IO Tree := do
  let (t, names) ← addDirectory t root
  if t.isDirectory root then names.foldlM (fun t name => addPackage t (Path.join root name)) t
  else addFile t root

/-- Adds what loading the configuration looks at. -/
def addConfiguration (t : Tree) (o : CommandLine.Options) : IO Tree :=
  match o.config with
  | some path => addFile t path
  | none =>
    (Configuration.upward (Path.parts t.cwd)).foldlM (fun t dir =>
      Configuration.fileNames.foldlM (fun t f => addFile t (Path.join dir f.1)) t) t

/-- The files at the start: none but the working directory. -/
def workingTree : IO Tree := do
  let cwd ← IO.currentDir
  let t : Tree := { cwd := cwd.toString }
  pure (t.put t.cwd .directory)

/-! ## Writing -/

/-- The stream that the log of a run is written to. -/
def logStream (sink : Log.Sink) : IO IO.FS.Stream :=
  match sink.file with
  | none => IO.getStderr
  | some path => do
    let dir := "/".intercalate (path.splitOn "/").dropLast
    if dir ≠ "" then IO.FS.createDirAll dir
    pure (IO.FS.Stream.ofHandle (← IO.FS.Handle.mk path .append))

def writeLog (log : IO.FS.Stream) (sink : Log.Sink) (ns : List Notice) : IO Unit := do
  (sink.lines ns).forM log.putStrLn
  log.flush

/-! ## Serving -/

/-- Serves the host until the run ends; the result is the exit code. -/
partial def serve (input output log : IO.FS.Stream) (sink : Log.Sink) (s : Session) : IO UInt32 := do
  output.write (Service.output s).toByteArray
  output.flush
  writeLog log sink (Service.notices s)
  match Service.exitCode? s with
  | some code => pure code
  | none =>
    let chunk ← input.read 8192
    let s := s.forget
    serve input output log sink
      (if chunk.isEmpty then Service.finishInput s else Service.receive s chunk.toList)

def report (message : String) (code : UInt32) : IO UInt32 := do
  IO.eprintln message
  pure code

def run (o : CommandLine.Options) : IO UInt32 := do
  let env ← environment
  let t ← addConfiguration (← workingTree) o
  match Service.configure t env o with
  | .error e => report (Service.StartFault.config e).message (Service.StartFault.config e).exitCode
  | .ok c =>
    match Service.openLog t c with
    | .error fault => report fault.message fault.exitCode
    | .ok (sink, t) =>
      let log ← logStream sink
      let t ← c.packages.roots.foldlM addRoot t
      match Service.opening t env c o.endpoint with
      | .refused ns failure =>
        writeLog log sink ns
        report failure.message 1
      | .serving s => serve (← IO.getStdin) (← IO.getStdout) log sink s

end EditorLink.Main

def main (args : List String) : IO UInt32 :=
  match EditorLink.CommandLine.parse args with
  | .error .help => do
    IO.println EditorLink.CommandLine.Refusal.help.message
    pure EditorLink.CommandLine.Refusal.help.exitCode
  | .error refusal => EditorLink.Main.report refusal.message refusal.exitCode
  | .ok o => EditorLink.Main.run o
