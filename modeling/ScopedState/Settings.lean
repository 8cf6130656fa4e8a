/-
`Settings.lean` -- the configuration of a store.

Settings come from a TOML file with four sections, any of which may be left
out. Environment variables override single values after that, one by one, and
the result is validated last. The two kinds of text in the settings that are
used as paths are checked there: the state directory has to be relative, and
the extension of storage files has to be one that a file name can end in.
-/
import ScopedState.Disk
import ScopedState.Failure
import ScopedState.Text.Blank
import ScopedState.Toml.Record
import ScopedState.Toml.Writer
set_option autoImplicit false

namespace ScopedState

/-- The configuration of a store. -/
structure Settings where
  /-- What is logged. -/
  logLevel : String := "info"
  /-- The directory in each scope's directory that holds its storage files. -/
  stateDir : String := ".scopestore"
  /-- The extension of storage files. -/
  extension : String := "json"
  /-- Whether content is flushed to the device before it is published. -/
  durableWrites : Bool := true
  /-- How many milliseconds a path has to be quiet before its event goes out. -/
  debounce : Nat := 100
  /-- How many milliseconds lie between two batches of events. -/
  batchInterval : Nat := 500
  /-- How many waiting paths let every event go. -/
  maxBatch : Nat := 100
  /-- A file that receives a copy of the log. -/
  sink : Option Path := none
  /-- Whether that copy is written as JSON. -/
  jsonLog : Bool := false
  deriving DecidableEq, Repr, Inhabited

namespace Settings

/-! ## 1. Validation -/

/-- The log levels. -/
def logLevels : List String := ["trace", "debug", "info", "warn", "error"]

/-- What is wrong with settings, or with what they are read from. -/
inductive Fault where
  | unknownLevel (level : String)
  | badStateDir (dir : String)
  | badExtension (extension : String)
  | emptyBatch
  | noInterval
  | badFlag (name : String)
  | unreadable (e : OsError)
  | unparsable (e : Toml.Fault)
  | noDirectory (e : OsError)
  | unwritable (e : OsError)
  | notPublished (e : OsError)
  | notRepresentable
  deriving DecidableEq, Repr

/-- The text of a fault. -/
def Fault.message : Fault → String
  | unknownLevel level =>
    "Unknown log level '" ++ level ++ "', expected one of: " ++ Failure.commaList logLevels
  | badStateDir dir => "Invalid state_dir '" ++ dir ++ "'. Must be a non-empty relative path"
  | badExtension extension =>
    "Invalid extension '" ++ extension ++ "'. Must be non-empty and contain no dots"
  | emptyBatch => "max_batch_size must be greater than 0"
  | noInterval => "batch_interval_ms must be greater than 0"
  | badFlag name =>
    "Invalid " ++ name ++ " in environment: provided string was not `true` or `false`"
  | unreadable e => "Failed to read config file: " ++ e.message
  | unparsable e => "Failed to parse config file: " ++ e.message
  | noDirectory e => "Failed to create config directory: " ++ e.message
  | unwritable e => "Failed to write config file: " ++ e.message
  | notPublished e => "Failed to rename config file: " ++ e.message
  | notRepresentable => "Failed to serialize config: number out of range"

/-- A fault as a failure. -/
def Fault.failure (fault : Fault) : Failure := .config fault.message

/-- **What is wrong with settings**, the first thing in a fixed order. -/
def fault? (s : Settings) : Option Fault :=
  if !logLevels.contains s.logLevel then some (.unknownLevel s.logLevel)
  else if Blank.isBlankText s.stateDir || (⟨s.stateDir⟩ : Path).isAbsolute then
    some (.badStateDir s.stateDir)
  else if s.extension.isEmpty || s.extension.toList.contains '.' then
    some (.badExtension s.extension)
  else if s.maxBatch = 0 then some .emptyBatch
  else if s.batchInterval = 0 then some .noInterval
  else none

/-- Validate settings. -/
def validate (s : Settings) : Except Fault Unit :=
  match s.fault? with
  | some fault => .error fault
  | none => .ok ()

/-! ## 2. The environment -/

/-- Environment variables: name to value. -/
abbrev Environment := Bindings String String

/-- The variables that override settings. -/
def logLevelVariable : String := "SCOPESTORE_LOG_LEVEL"
/-- The variable for the state directory. -/
def stateDirVariable : String := "SCOPESTORE_STATE_DIR"
/-- The variable for durable writes. -/
def durableVariable : String := "SCOPESTORE_DURABLE_WRITES"
/-- The variable for the log file. -/
def sinkVariable : String := "SCOPESTORE_LOG_SINK"

/-- The truth value of a word. -/
def flag? (text : String) : Option Bool :=
  if text = "true" then some true else if text = "false" then some false else none

/-- Take the log level and the state directory from the environment. -/
def overrideTexts (env : Environment) (s : Settings) : Settings :=
  { s with
    logLevel := (Bindings.get? env logLevelVariable).getD s.logLevel
    stateDir := (Bindings.get? env stateDirVariable).getD s.stateDir }

/-- Take the log file from the environment; an empty value stands for none. -/
def overrideSink (env : Environment) (s : Settings) : Settings :=
  match Bindings.get? env sinkVariable with
  | none => s
  | some text => { s with sink := if text.isEmpty then none else some ⟨text⟩ }

/-- **Override settings** by the environment. A value that makes no sense ends
it, with what has been overridden before. -/
def override (env : Environment) (s : Settings) : Except Fault Unit × Settings :=
  let s := overrideTexts env s
  match Bindings.get? env durableVariable with
  | none => (.ok (), overrideSink env s)
  | some text =>
    match flag? text with
    | none => (.error (.badFlag durableVariable), s)
    | some durableWrites => (.ok (), overrideSink env { s with durableWrites })

/-- Override settings by the environment and validate them. -/
def settle (env : Environment) (s : Settings) : Except Fault Settings :=
  match override env s with
  | (.error fault, _) => .error fault
  | (.ok (), s) =>
    match s.validate with
    | .error fault => .error fault
    | .ok () => .ok s

/-! ## 3. Reading -/

/-- Read the general section. -/
def readGeneral (s : Settings) (v : Toml) : Except Toml.Fault Settings := do
  let r ← Toml.Record.ofValue ["log_level"] v
  let logLevel ← r.required "log_level" Toml.asString
  return { s with logLevel }

/-- Read the section on storage files. -/
def readStorage (s : Settings) (v : Toml) : Except Toml.Fault Settings := do
  let r ← Toml.Record.ofValue ["state_dir", "extension", "durable_writes"] v
  let stateDir ← r.required "state_dir" Toml.asString
  let extension ← r.required "extension" Toml.asString
  let durableWrites ← r.optional "durable_writes" true Toml.asBool
  return { s with stateDir, extension, durableWrites }

/-- Read the section on the change feed. -/
def readWatcher (s : Settings) (v : Toml) : Except Toml.Fault Settings := do
  let r ← Toml.Record.ofValue ["debounce_ms", "batch_interval_ms", "max_batch_size"] v
  let debounce ← r.required "debounce_ms" Toml.asNat
  let batchInterval ← r.required "batch_interval_ms" Toml.asNat
  let maxBatch ← r.required "max_batch_size" Toml.asNat
  return { s with debounce, batchInterval, maxBatch }

/-- Read the section on the log file. -/
def readLogging (s : Settings) (v : Toml) : Except Toml.Fault Settings := do
  let r ← Toml.Record.ofValue ["sink", "json"] v
  let sink ← r.optional "sink" none fun v => (Toml.asString v).map fun text => some ⟨text⟩
  let jsonLog ← r.optional "json" false Toml.asBool
  return { s with sink, jsonLog }

/-- **The settings of a document.** -/
def ofFields (fields : Toml.Fields) : Except Toml.Fault Settings := do
  let r ← Toml.Record.ofFields ["general", "storage", "watcher", "logging"] fields
  let s : Settings := {}
  let s ← r.optional "general" s s.readGeneral
  let s ← r.optional "storage" s s.readStorage
  let s ← r.optional "watcher" s s.readWatcher
  r.optional "logging" s s.readLogging

/-- Read settings from a text. -/
def ofText (text : List Char) : Except Toml.Fault Settings :=
  match Toml.read text with
  | .error fault => .error fault
  | .ok fields => ofFields fields

/-- **Load** settings from a file. -/
def load (d : Disk) (env : Environment) (p : Path) : Except Fault Settings :=
  match d.readText p with
  | .error e => .error (.unreadable e)
  | .ok text =>
    match ofText text with
    | .error fault => .error (.unparsable fault)
    | .ok s => settle env s

/-- Load settings from a file, or take the default ones if it is not there. -/
def loadOrDefault (d : Disk) (env : Environment) (p : Path) : Except Fault Settings :=
  if d.pathExists p then load d env p else settle env {}

/-! ## 4. Writing -/

/-- **The text of settings.** None if a number is too great to be written. -/
def toText? (s : Settings) : Option (List Char) := do
  let debounce ← Toml.writeNat? s.debounce
  let batchInterval ← Toml.writeNat? s.batchInterval
  let maxBatch ← Toml.writeNat? s.maxBatch
  let general := "[general]\n".toList ++ Toml.line "log_level" (Toml.quote s.logLevel)
  let storage := "[storage]\n".toList ++ Toml.line "state_dir" (Toml.quote s.stateDir)
    ++ Toml.line "extension" (Toml.quote s.extension)
    ++ Toml.line "durable_writes" (Toml.writeBool s.durableWrites)
  let watcher := "[watcher]\n".toList ++ Toml.line "debounce_ms" debounce
    ++ Toml.line "batch_interval_ms" batchInterval ++ Toml.line "max_batch_size" maxBatch
  let logging := "[logging]\n".toList
    ++ s.sink.elim [] (fun p => Toml.line "sink" (Toml.quote p.text))
    ++ Toml.line "json" (Toml.writeBool s.jsonLog)
  return general ++ ['\n'] ++ storage ++ ['\n'] ++ watcher ++ ['\n'] ++ logging

/-- The temporary file beside a settings file. -/
def temporary (p : Path) : Path := p.withExtension "toml.tmp"

/-- Make the directories above a settings file, unless the one it is in is
there. -/
def makeParents (d : Disk) (p : Path) : Except OsError Unit × Disk :=
  match p.parent? with
  | none => (.ok (), d)
  | some parent =>
    if parent.text.isEmpty || d.pathExists parent then (.ok (), d) else d.makeTree parent

/-- **Save** valid settings: write a temporary file and move it to its place. -/
def save (s : Settings) (d : Disk) (p : Path) : Except Fault Unit × Disk :=
  match s.validate with
  | .error fault => (.error fault, d)
  | .ok () =>
    match makeParents d p with
    | (.error e, d) => (.error (.noDirectory e), d)
    | (.ok (), d) =>
      match s.toText? with
      | none => (.error .notRepresentable, d)
      | some text =>
        match d.write (temporary p) (Utf8.encode text) with
        | .error e => (.error (.unwritable e), d)
        | .ok d =>
          match d.move (temporary p) p with
          | .error e => (.error (.notPublished e), d)
          | .ok d => (.ok (), d)

/-! ## 5. Use -/

/-- The directory with the storage files of a scope. -/
def stateDirFor (s : Settings) (scopeDir : Path) : Path := scopeDir.join ⟨s.stateDir⟩

end Settings

end ScopedState
