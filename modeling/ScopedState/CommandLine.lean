/-
`CommandLine.lean` -- from arguments to a command, and from a command to an
exit code.

The arguments are options of the program, the name of a command, and options
and operands of the command, in this order, except that the options of the
program may stand behind the command as well. An option may be given once on
either side; if it is given on both, the side of the command counts. What
follows `--` is an operand whatever it looks like.

Wrong usage ends with exit code 2, a failed command with exit code 1.
-/
import ScopedState.Command
set_option autoImplicit false

namespace ScopedState.CommandLine

/-! ## 1. What can be asked for -/

/-- A command with its operands. -/
inductive Action where
  | files (project : Path) (own : Bool)
  | display (project : Path)
  | set (project : Path) (scope component value : String)
  | save (project : Path)
  | watch (project : Path)
  deriving DecidableEq, Repr

/-- The options of the program, on one side of the command. -/
structure Options where
  verbose : Bool := false
  config : Option Path := none
  format : Option Format := none
  deriving DecidableEq, Repr, Inhabited

/-- What the arguments come to. -/
structure Invocation where
  options : Options
  action : Action
  deriving DecidableEq, Repr

/-- Why no command is run. -/
inductive Stop where
  /-- The arguments make no sense. -/
  | usage
  /-- The version was asked for. -/
  | version
  /-- Help was asked for. -/
  | help
  deriving DecidableEq, Repr

/-! ## 2. Options -/

/-- The options that can be written. -/
inductive Switch where
  | verbose
  | config
  | format
  | own
  | version
  | help
  deriving DecidableEq, Repr

/-- The names of the commands. -/
def commands : List String := ["files", "show", "set", "save", "watch"]

/-- The side of the command that an option is on: before any command, or
behind one. -/
abbrev Side := Option String

/-- The option of a long name. -/
def long? (side : Side) (name : String) : Option Switch :=
  if name = "verbose" then some .verbose
  else if name = "config" then some .config
  else if name = "format" then some .format
  else if name = "help" then some .help
  else if name = "own" && side = some "files" then some .own
  else if name = "version" && side = none then some .version
  else none

/-- The option of a letter. -/
def short? (side : Side) (c : Char) : Option Switch :=
  if c = 'v' then some .verbose
  else if c = 'c' then some .config
  else if c = 'h' then some .help
  else if c = 'V' && side = none then some .version
  else none

/-- Whether an option has a value. -/
def Switch.hasValue : Switch → Bool
  | config => true
  | format => true
  | _ => false

/-- What has been read on one side of the command. -/
structure Reading where
  options : Options := {}
  own : Bool := false
  /-- The operands, the last one first. -/
  operands : List String := []
  deriving Repr, Inhabited

/-- Take in an option without a value. -/
def Reading.flag (r : Reading) : Switch → Except Stop Reading
  | .verbose =>
    if r.options.verbose then .error .usage
    else .ok { r with options := { r.options with verbose := true } }
  | .own => if r.own then .error .usage else .ok { r with own := true }
  | .version => .error .version
  | .help => .error .help
  | _ => .error .usage

/-- The format of a name. -/
def format? (name : String) : Option Format :=
  if name = "human" then some .human else if name = "json" then some .json else none

/-- Take in an option with its value. -/
def Reading.value (r : Reading) (s : Switch) (value : String) : Except Stop Reading :=
  match s with
  | .config =>
    if r.options.config.isSome || value.isEmpty then .error .usage
    else .ok { r with options := { r.options with config := some ⟨value⟩ } }
  | .format =>
    if r.options.format.isSome then .error .usage
    else match format? value with
      | none => .error .usage
      | some f => .ok { r with options := { r.options with format := some f } }
  | _ => .error .usage

/-! ## 3. Arguments -/

/-- How an argument is to be taken. -/
inductive Argument where
  /-- A double dash. -/
  | escape
  /-- A long option, perhaps with a value behind an equals sign. -/
  | long (name : String) (value : Option String)
  /-- Letters behind a dash. -/
  | short (letters : List Char)
  /-- Anything else. -/
  | operand
  deriving DecidableEq, Repr

/-- Tell what an argument is. A dash alone is an operand. -/
def Argument.of (text : String) : Argument :=
  match text.toList with
  | ['-', '-'] => .escape
  | '-' :: '-' :: rest =>
    let name := String.ofList (rest.takeWhile (· ≠ '='))
    match rest.dropWhile (· ≠ '=') with
    | [] => .long name none
    | _ :: value => .long name (some (String.ofList value))
  | '-' :: c :: rest => .short (c :: rest)
  | _ => .operand

/-- Take in letters. The last of them may be an option whose value is still to
come; it is given back. -/
def Reading.letters (side : Side) (r : Reading) : List Char → Except Stop (Reading × Option Switch)
  | [] => .ok (r, none)
  | c :: rest =>
    match short? side c with
    | none => .error .usage
    | some s =>
      if s.hasValue then
        match rest with
        | [] => .ok (r, some s)
        | '=' :: value => (r.value s (String.ofList value)).map fun r => (r, none)
        | value => (r.value s (String.ofList value)).map fun r => (r, none)
      else match r.flag s with
        | .error e => .error e
        | .ok r => r.letters side rest

/-- Take in a long option. -/
def Reading.long (side : Side) (r : Reading) (name : String) (value : Option String) :
    Except Stop (Reading × Option Switch) :=
  match long? side name, value with
  | none, _ => .error .usage
  | some s, some value =>
    if s.hasValue then (r.value s value).map fun r => (r, none) else .error .usage
  | some s, none =>
    if s.hasValue then .ok (r, some s) else (r.flag s).map fun r => (r, none)

/-- The number of operands of a command. -/
def operandCount (command : String) : Nat := if command = "set" then 4 else 1

/-- Take in an operand of a command. The first one is a path, so it is not
empty. -/
def Reading.operand (r : Reading) (command text : String) : Except Stop Reading :=
  if operandCount command ≤ r.operands.length then .error .usage
  else if r.operands.isEmpty && text.isEmpty then .error .usage
  else .ok { r with operands := text :: r.operands }

/-- Read the options and operands of a command. `pending` is an option whose
value comes next; behind a double dash `escaped` is set. -/
def readCommand (command : String) (escaped : Bool) (pending : Option Switch) (r : Reading) :
    List String → Except Stop Reading
  | [] => if pending.isSome then .error .usage else .ok r
  | text :: rest =>
    if escaped then
      match r.operand command text with
      | .error e => .error e
      | .ok r => readCommand command true pending r rest
    else match pending, Argument.of text with
      | some s, .operand =>
        match r.value s text with
        | .error e => .error e
        | .ok r => readCommand command false none r rest
      | some _, _ => .error .usage
      | none, .escape => readCommand command true none r rest
      | none, .long name value =>
        match r.long (some command) name value with
        | .error e => .error e
        | .ok (r, pending) => readCommand command false pending r rest
      | none, .short letters =>
        match r.letters (some command) letters with
        | .error e => .error e
        | .ok (r, pending) => readCommand command false pending r rest
      | none, .operand =>
        match r.operand command text with
        | .error e => .error e
        | .ok r => readCommand command false none r rest

/-- The command that the operands make. -/
def action? (command : String) (r : Reading) : Option Action :=
  match r.operands.reverse with
  | [project] =>
    if command = "files" then some (.files ⟨project⟩ r.own)
    else if command = "show" then some (.display ⟨project⟩)
    else if command = "save" then some (.save ⟨project⟩)
    else if command = "watch" then some (.watch ⟨project⟩)
    else none
  | [project, scope, component, value] =>
    if command = "set" then some (.set ⟨project⟩ scope component value) else none
  | _ => none

/-- Options of both sides together: those behind the command count first. -/
def Options.merge (before behind : Options) : Options :=
  { verbose := before.verbose || behind.verbose
    config := behind.config <|> before.config
    format := behind.format <|> before.format }

/-- The variable that names a configuration file. -/
def configVariable : String := "SCOPESTORE_CONFIG"

/-- The options with the configuration file of the environment, unless one is
given. Where the option is missing on a side, the variable must not be empty. -/
def withEnvironment (env : Settings.Environment) (before behind : Options) :
    Except Stop Options :=
  let options := before.merge behind
  match Bindings.get? env configVariable with
  | none => .ok options
  | some text =>
    if text.isEmpty && (before.config.isNone || behind.config.isNone) then .error .usage
    else .ok { options with config := options.config <|> some ⟨text⟩ }

/-- What the word for help comes to, with the words behind it: help on the
program or on one command, and nonsense otherwise. -/
def helpOn : List String → Stop
  | [] => .help
  | [name] => if name = "help" || commands.contains name then .help else .usage
  | _ => .usage

/-- Read the arguments up to the name of the command, and what follows it. -/
def readProgram (env : Settings.Environment) (pending : Option Switch) (r : Reading) :
    List String → Except Stop Invocation
  | [] => .error .usage
  | text :: rest =>
    match pending, Argument.of text with
    | some s, .operand =>
      match r.value s text with
      | .error e => .error e
      | .ok r => readProgram env none r rest
    | some _, _ => .error .usage
    | none, .escape => .error .usage
    | none, .long name value =>
      match r.long none name value with
      | .error e => .error e
      | .ok (r, pending) => readProgram env pending r rest
    | none, .short letters =>
      match r.letters none letters with
      | .error e => .error e
      | .ok (r, pending) => readProgram env pending r rest
    | none, .operand =>
      if text = "help" then .error (helpOn rest)
      else if commands.contains text then
        match readCommand text false none {} rest with
        | .error e => .error e
        | .ok behind =>
          match action? text behind with
          | none => .error .usage
          | some action =>
            (withEnvironment env r.options behind.options).map fun options => { options, action }
      else .error .usage

/-- **Read the arguments.** -/
def read (env : Settings.Environment) (args : List String) : Except Stop Invocation :=
  readProgram env none {} args

/-! ## 4. Running -/

/-- What a run of the program leaves behind. -/
structure Run where
  exitCode : Nat := 0
  stdout : String := ""
  stderr : String := ""
  disk : Disk
  deriving Repr, Inhabited

/-- A run that ends with an exit code and nothing else. -/
def Run.ended (exitCode : Nat) (disk : Disk) : Run := { exitCode, disk }

/-- A run that fails for a chain of reasons. -/
def Run.failed (reasons : List String) (disk : Disk) : Run :=
  { exitCode := 1, stderr := Report.marked .failed (": ".intercalate reasons), disk }

/-- The run of a command that has replied. -/
def Run.ofReply (r : Reply) : Run :=
  match r.errorLine with
  | none => { stdout := r.stdout, disk := r.disk }
  | some line =>
    { exitCode := 1, stdout := r.stdout, stderr := Report.marked .failed line, disk := r.disk }

/-- The settings for a run: those of the given file, or the default ones. -/
def settingsFor (d : Disk) (env : Settings.Environment) (config : Option Path) :
    Except (List String) Settings :=
  match config with
  | some p =>
    match Settings.load d env p with
    | .ok s => .ok s
    | .error fault => .error (("Failed to load config " ++ p.text) :: fault.failure.chain)
  | none =>
    match Settings.settle env {} with
    | .ok s => .ok s
    | .error fault => .error fault.failure.chain

/-- Open the log file: it is there afterwards, with the content it had, under
the path that is given back. The first failure gives reasons, the last one
stops the program. -/
def openSink (d : Disk) (sink : Path) : Except (Option (List String)) Path × Disk :=
  match sink.fileName? with
  | none => (.error (some ["Log sink must name a file"]), d)
  | some name =>
    let dir : Path := match sink.parent? with
      | some parent => if parent.text.isEmpty then ⟨"."⟩ else parent
      | none => ⟨"."⟩
    match d.makeTree dir with
    | (.error e, d) => (.error (some ["Failed to create " ++ dir.text, e.message]), d)
    | (.ok (), d) =>
      let file := dir.join ⟨name⟩
      match d.read file with
      | .ok _ => (.ok file, d)
      | .error .notFound =>
        match d.write file [] with
        | .ok d => (.ok file, d)
        | .error _ => (.error none, d)
      | .error _ => (.error none, d)

/-- Add text to a file that is there. -/
def append (d : Disk) (file : Path) (text : String) : Disk :=
  match d.read file with
  | .error _ => d
  | .ok bytes =>
    match d.write file (bytes ++ Utf8.ofString text) with
    | .ok d => d
    | .error _ => d

/-- Record the events of a run that are wanted. -/
def record (d : Disk) (file : Path) (filter : Log.Filter) (events : List Log.Event) : Disk :=
  let wanted := events.filter filter.admits
  if wanted.isEmpty then d else append d file (String.join (wanted.map Log.Event.line))

/-- The directory that a command works on. -/
def Action.project : Action → Path
  | files project _ => project
  | display project => project
  | set project _ _ _ => project
  | save project => project
  | watch project => project

section Act

variable (δ : Type) [DecidableEq δ] [Digest δ]

/-- Run a command. Watching only announces itself; what follows is a
`Command.reconcile` whenever files have changed. -/
def Action.run (action : Action) (d : Disk) (s : Settings) (format : Format) : Reply :=
  match action with
  | .files project own => Command.files δ d project own s format
  | .display project => Command.show δ d project s format
  | .set project scope component value => Command.set δ d project scope component value s
  | .save project => Command.save δ d project s format
  | .watch project =>
    Command.withProject δ d project s fun p =>
      { stdout := Report.marked .note ("Watching " ++ p.dir.text ++ " (Ctrl-C to stop)")
        disk := d
        events := [⟨.info, .watcher, "watching"⟩] }

/-- Run what was asked for. -/
def runInvocation (i : Invocation) (d : Disk) (env : Settings.Environment) : Run :=
  match settingsFor d env i.options.config with
  | .error reasons => .failed reasons d
  | .ok s =>
    let reply (d : Disk) : Reply := i.action.run δ d s (i.options.format.getD .human)
    match s.sink with
    | none => .ofReply (reply d)
    | some sink =>
      match openSink d sink with
      | (.error (some reasons), d) => .failed reasons d
      | (.error none, d) => .ended 101 d
      | (.ok file, d) =>
        let r := reply d
        let filter := Log.Filter.choose i.options.verbose env s.logLevel
        .ofReply { r with disk := record r.disk file filter r.events }

/-- The line that tells the version. -/
def versionText : String := "scopestore 0.1.0\n"

/-- How the program is used. -/
def usageText : String :=
  "Usage: scopestore [OPTIONS] COMMAND PROJECT\n\n"
    ++ "Commands:\n"
    ++ "  files PROJECT [--own]                 list the storage files\n"
    ++ "  show PROJECT                          show scopes and components\n"
    ++ "  set PROJECT SCOPE COMPONENT VALUE     set a component and save\n"
    ++ "  save PROJECT                          save every scope\n"
    ++ "  watch PROJECT                         reload what changes on disk\n\n"
    ++ "Options:\n"
    ++ "  -v, --verbose                         log more\n"
    ++ "  -c, --config FILE                     read settings from a file\n"
    ++ "      --format human|json               how results are written\n"

/-- **Run the program** with arguments, on a disk and in an environment. -/
def run (args : List String) (d : Disk) (env : Settings.Environment) : Run :=
  match read env args with
  | .error .usage => { exitCode := 2, stderr := usageText, disk := d }
  | .error .help => { stdout := usageText, disk := d }
  | .error .version => { stdout := versionText, disk := d }
  | .ok i => runInvocation δ i d env

end Act

end ScopedState.CommandLine
