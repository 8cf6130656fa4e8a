/-
`Main.lean` -- the program on a file system.

A run is computed on a `Disk`. So the places that it can look at are loaded
first: the configuration and the log file, the manifest, and the state
directory of every scope of the project. Afterwards the files that differ are
written back, each by a temporary file that is moved over it, and what the run
prints is printed. A project that is watched is loaded time and again, and
reconciled with what differs.
-/
import ScopedState.CommandLine
import ScopedState.Digest.Blake3
set_option autoImplicit false

namespace ScopedState.CommandLine

/-! ## 1. Places to load -/

/-- The places that a path leads through from `here`, the last one included. -/
def waypoints (here : Place) : List String → List Place
  | [] => []
  | step :: rest =>
    let next :=
      if step = "." then here else if step = ".." then here.dropLast else here ++ [step]
    next :: waypoints next rest

/-- The places that a path leads through on a disk. -/
def placesOf (d : Disk) (p : Path) : List Place := waypoints (d.start p) (Disk.steps p)

/-- The files that a run reads before it knows the project. -/
def openingFiles (i : Invocation) : List Path :=
  i.options.config.toList ++ [i.action.project.join ⟨Manifest.fileName⟩]

/-- The log file and the state directories, once settings and manifest are on
the disk. -/
def furtherPaths (i : Invocation) (d : Disk) (env : Settings.Environment) :
    List Path × List Path :=
  match settingsFor d env i.options.config with
  | .error _ => ([], [])
  | .ok s =>
    let scopes := match Manifest.load d i.action.project with
      | .error _ => []
      | .ok m =>
        i.action.project :: m.modules.map fun (e : ModuleEntry) => i.action.project.join e.dir
    (s.sink.toList, scopes.map s.stateDirFor)

/-! ## 2. Loading -/

/-- Whether a file can be written to. -/
def canWrite (name : String) : IO Bool := do
  try
    discard <| IO.FS.Handle.mk name .append
    return true
  catch _ => return false

/-- Put on the disk what is at a place of the file system, if anything is. -/
def loadPlace (d : Disk) (place : Place) : IO Disk := do
  let name := Disk.textOf place
  try
    let file ← IO.FS.realPath name
    if ← file.isDir then return d.put place .directory
    let bytes ← IO.FS.readBinFile name
    let writable ← canWrite name
    return d.put place (.file bytes.toList !writable)
  catch _ => return d

/-- Load the places that a path leads through. -/
def loadPath (d : Disk) (p : Path) : IO Disk := (placesOf d p).foldlM loadPlace d

/-- Load a directory with what is right in it. -/
def loadDirectory (d : Disk) (p : Path) : IO Disk := do
  let d ← loadPath d p
  match d.locate p with
  | .error _ => return d
  | .ok place =>
    try
      let directory ← IO.FS.realPath (Disk.textOf place)
      let entries ← directory.readDir
      entries.foldlM (fun d entry => loadPlace d (place ++ [entry.fileName])) d
    catch _ => return d

/-- Load all that a run can look at. -/
def loadFor (i : Invocation) (d : Disk) (env : Settings.Environment) : IO Disk := do
  let d ← (openingFiles i).foldlM loadPath d
  let (files, directories) := furtherPaths i d env
  let d ← files.foldlM loadPath d
  directories.foldlM loadDirectory d

/-! ## 3. Writing back -/

/-- Write a file of the file system, or remove it. -/
def publish (name : String) (content : Option Bytes) : IO Unit :=
  match content with
  | none => IO.FS.removeFile name
  | some bytes => do
    match (⟨name⟩ : Path).parent? with
    | some directory => IO.FS.createDirAll directory.text
    | none => pure ()
    let draft := name ++ ".draft"
    IO.FS.writeBinFile draft ⟨bytes.toArray⟩
    IO.FS.rename draft name

/-- Write back every file that differs. -/
def publishAll (before after : Disk) : IO Unit :=
  (Disk.changes before after []).forM fun f => publish ("/" ++ f.1) f.2

/-- The environment variables that the program reads. -/
def environment : IO Settings.Environment := do
  let names := [configVariable, Settings.logLevelVariable, Settings.stateDirVariable,
    Settings.durableVariable, Settings.sinkVariable, Log.Filter.variableName]
  let found ← names.filterMapM fun name => do
    return (← IO.getEnv name).map fun text => (name, text)
  return Bindings.ofList found

/-- The disk with nothing but the working directory and those above it. -/
def workingDisk : IO Disk := do
  let cwd := Disk.steps ⟨(← IO.currentDir).toString⟩
  (waypoints [] cwd).foldlM loadPlace { cwd }

/-! ## 4. Running -/

/-- Print output at once. -/
def say (text : String) : IO Unit := do
  IO.print text
  (← IO.getStdout).flush

/-- The files that differ between two disks, as changes without an owner. -/
def changedFiles (before after : Disk) : ChangeSet :=
  ChangeSet.ofList ((Disk.changes before after []).map fun f => ⟨⟨"/" ++ f.1⟩, none⟩)

/-- Look at the files of a project time and again and reconcile it with what
has changed, until that fails. -/
def follow (i : Invocation) (bare : Disk) (env : Settings.Environment) (s : Settings) :
    IO UInt32 := do
  match Project.open (δ := Blake3.Hash) (← loadFor i bare env) i.action.project s with
  | .error _ => return 1
  | .ok opened =>
    let mut project := opened
    repeat
      IO.sleep (UInt32.ofNat s.batchInterval)
      let now ← loadFor i bare env
      let changes := changedFiles project.disk now
      let (reply, next) := Command.reconcile (project.withDisk now) changes
      say reply.stdout
      if let some line := reply.errorLine then
        IO.eprint (Report.marked .failed line)
        return 1
      project := next
    return 0

/-- Run the program with arguments: its exit code. -/
def start (args : List String) : IO UInt32 := do
  let env ← environment
  let bare ← workingDisk
  let d ← match read env args with
    | .ok i => loadFor i bare env
    | .error _ => pure bare
  let ended := run Blake3.Hash args d env
  publishAll d ended.disk
  say ended.stdout
  IO.eprint ended.stderr
  match read env args with
  | .ok { action := .watch project, options } =>
    match ended.exitCode, settingsFor d env options.config with
    | 0, .ok s => follow { action := .watch project, options } bare env s
    | code, _ => return UInt32.ofNat code
  | _ => return UInt32.ofNat ended.exitCode

end ScopedState.CommandLine

/-- The program. -/
def main (args : List String) : IO UInt32 := ScopedState.CommandLine.start args
