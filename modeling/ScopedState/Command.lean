/-
`Command.lean` -- what the commands do.

A command opens a project, acts on it, and replies with text for the reader
and, if it fails, a chain of reasons: what was attempted first, and what was
underneath last. Output is for people or, on request, one JSON document.
-/
import ScopedState.Project
import ScopedState.Report
set_option autoImplicit false

namespace ScopedState

/-- How the results of a command are written. -/
inductive Format where
  | human
  | json
  deriving DecidableEq, Repr, Inhabited

/-- What a command leaves behind. -/
structure Reply where
  stdout : String := ""
  /-- Why the command failed, if it did: the outermost reason first. -/
  error : Option (List String) := none
  disk : Disk
  /-- What there is to log. -/
  events : List Log.Event := []
  deriving Repr, Inhabited

namespace Reply

/-- The reasons as one line. -/
def errorLine (r : Reply) : Option String := r.error.map fun chain => ": ".intercalate chain

end Reply

namespace Command

variable {δ : Type} [DecidableEq δ] [Digest δ]

/-! ## 1. Helpers -/

/-- The reason that a command gives first when a project does not open. -/
def openContext (dir : Path) : String := "Failed to open project " ++ dir.text

/-- Open a project and go on with it. -/
def withProject (δ : Type) [DecidableEq δ] [Digest δ] (d : Disk) (dir : Path)
    (settings : Settings) (act : Project δ → Reply) : Reply :=
  match Project.attempt d dir settings with
  | (.error e, events) => { error := some (openContext dir :: e.chain), disk := d, events }
  | (.ok project, events) =>
    let reply := act project
    { reply with events := events ++ reply.events }

/-- A JSON document as output. -/
def document (v : Json) : String := v.toPretty ++ "\n"

/-- Paths as a JSON document. -/
def pathDocument (paths : Paths) : String :=
  document (.array (paths.toList.map fun p => .string p.text))

/-- That a session has been opened. -/
def sessionOpened : Log.Event := ⟨.debug, .store, "session opened"⟩

/-- What the end of a save tells: that it was finished, each kind of failure
that it met, and the writes. -/
def finishEvents (outcome : Outcome) (files : LocalFiles) : List Log.Event :=
  [⟨.info, .session, "save finished"⟩]
    ++ (match outcome with
      | .ok () => []
      | .error (.childSave _ _) =>
        [⟨.error, .session, "write failed"⟩, ⟨.warn, .session, "save of a module failed"⟩]
      | .error _ => [⟨.error, .session, "write failed"⟩])
    ++ Log.when (0 < files.writes) [⟨.debug, .files, "files written"⟩]
    ++ Log.when (0 < files.strays) [⟨.warn, .files, "temporary files left"⟩]

/-- What a save tells that refuses read-only files, or goes through to its end.
Only `refusing` saves warn of files that they refuse. -/
def saveEvents (refused refusing : Bool) (outcome : Outcome) (files : LocalFiles) :
    List Log.Event :=
  [sessionOpened, ⟨.debug, .session, "writes staged"⟩]
    ++ if refused then Log.when refusing [⟨.warn, .store, "save refused"⟩]
      else finishEvents outcome files

/-! ## 2. Listing files -/

/-- The list of files for people. -/
def filesText (name : String) (ownOnly : Bool) (files : Paths) : String :=
  let title := "Storage files of '" ++ name ++ "'" ++ if ownOnly then "" else " and its modules"
  Report.title title ++
    if files.isEmpty then Report.marked .note "No storage files"
    else String.join (files.toList.map fun p => "  " ++ p.text ++ "\n")

/-- **List the files** that a save would touch. -/
def files (δ : Type) [DecidableEq δ] [Digest δ] (d : Disk) (dir : Path) (ownOnly : Bool)
    (settings : Settings) (format : Format) : Reply :=
  withProject δ d dir settings fun project =>
    let session := project.space.startSave project.root
    let files := (session.files (!ownOnly) project.space.vault).1
    let stdout := match format with
      | .json => pathDocument files
      | .human => filesText project.manifest.name ownOnly files
    { stdout, disk := d, events := [sessionOpened] }

/-! ## 3. Showing components -/

/-- What is shown of a component. -/
structure ComponentSummary where
  name : String
  file : String
  state : Option Json

/-- What is shown of a scope. -/
structure ScopeSummary where
  name : String
  dir : String
  components : List ComponentSummary

/-- The summaries of the scopes of a project. -/
def summaries (project : Project δ) : List ScopeSummary :=
  project.scopes.map fun s =>
    { name := s.name
      dir := s.dir.text
      components := s.components.map fun c =>
        { name := c.1, file := project.unitOf s c.1, state := project.value? c.2 } }

/-- A scope as a JSON object, its fields in the order of the summary. -/
def ScopeSummary.toJson (s : ScopeSummary) : Json :=
  .object [("name", .string s.name), ("dir", .string s.dir),
    ("components", .array (s.components.map fun c =>
      .object [("name", .string c.name), ("file", .string c.file),
        ("state", c.state.getD .null)]))]

/-- How many characters of a state are shown. -/
def previewLength : Nat := 60

/-- A scope for people. -/
def ScopeSummary.toText (s : ScopeSummary) : String :=
  Report.title s.name ++ Report.labelled "Directory" s.dir ++
    if s.components.isEmpty then Report.marked .note "No components"
    else Report.table ["Component", "File", "State"]
      (s.components.map fun c =>
        [c.name, c.file, c.state.elim "-" fun v => Report.preview v previewLength]) ++ "\n"

/-- **Show** the scopes and components of a project. -/
def «show» (δ : Type) [DecidableEq δ] [Digest δ] (d : Disk) (dir : Path) (settings : Settings)
    (format : Format) : Reply :=
  withProject δ d dir settings fun project =>
    match format with
    | .json =>
      { stdout := document (.array ((summaries project).map ScopeSummary.toJson)), disk := d }
    | .human =>
      { stdout := String.join ((summaries project).map ScopeSummary.toText), disk := d }

/-! ## 4. Setting and saving -/

/-- **Set** a component to the value of a JSON text, and save the project. -/
def set (δ : Type) [DecidableEq δ] [Digest δ] (d : Disk) (dir : Path)
    (scope component value : String) (settings : Settings) : Reply :=
  match Json.read value.toList with
  | .error fault => { error := some ["State must be valid JSON", fault.message], disk := d }
  | .ok v =>
    withProject δ d dir settings fun project =>
      match project.componentOrCreate scope component with
      | (.error e, project) =>
        { error := some e.chain, disk := d, events := Project.contentEvents project.space }
      | (.ok id, project) =>
        let (outcome, after) := (project.modify id fun c => c.set v).save
        let refused := match outcome with
          | .error (.readOnly _) => true
          | _ => false
        let events := Project.contentEvents project.space
          ++ saveEvents refused true outcome after.space.vault.backing
        match outcome with
        | .error e => { error := some e.chain, disk := after.disk, events }
        | .ok () =>
          { stdout := Report.marked .done
              ("Saved '" ++ component ++ "' in scope '" ++ scope ++ "'")
            disk := after.disk
            events }

/-- The lines on read-only files. -/
def refusals (targets : List ReadOnlyTarget) : String :=
  String.join (targets.map fun t =>
    Report.marked .warning (t.unit.text ++ " (" ++ t.scope ++ ") is read-only"))

/-- What a save that has succeeded replies. -/
def savedText (format : Format) (files : Paths) : String :=
  match format with
  | .json => pathDocument files
  | .human =>
    if files.isEmpty then Report.marked .note "Nothing to save"
    else Report.marked .done ("Wrote " ++ toString files.length ++ " file(s)")

/-- **Save** every scope of a project. -/
def save (δ : Type) [DecidableEq δ] [Digest δ] (d : Disk) (dir : Path) (settings : Settings)
    (format : Format) : Reply :=
  withProject δ d dir settings fun project =>
    let staged := (project.space.startSave project.root).save project.space.vault
    if staged.readOnly.isEmpty then
      let files := (staged.session.filesToSave true staged.world).1
      let finished := staged.session.finish staged.world
      let backing := finished.world.backing
      let events := saveEvents false false finished.outcome backing
      match firstFailure staged.outcome finished.outcome with
      | .error e => { error := some e.chain, disk := backing.disk, events }
      | .ok () => { stdout := savedText format files, disk := backing.disk, events }
    else
      { stdout := refusals staged.readOnly
        error := some
          ["Save aborted: " ++ toString staged.readOnly.length ++ " read-only file(s)"]
        disk := d
        events := saveEvents true false staged.outcome staged.world.backing }

/-! ## 5. Reconciling with outside changes -/

/-- The changes that concern the files of a project, attributed to scopes. -/
def relevant (project : Project δ) (changes : ChangeSet) : ChangeSet :=
  let session := project.space.startSave project.root
  let known := (session.files true project.space.vault).1
  (project.attributed changes).filter fun entry => known.contains entry.2.unit

/-- The reason why nobody could be asked. -/
def unanswered : List String := ["Failed to read the answer", "IO error: not a terminal"]

/-- **Reconcile** a project with changes of its files: reload the components
that differ, if every scope allows it. When the difference cannot be told, the
reader would have to be asked; without a terminal that fails. -/
def reconcile (project : Project δ) (changes : ChangeSet) : Reply × Project δ :=
  let changes := relevant project changes
  let session := project.space.startSave project.root
  if changes.isEmpty then ({ disk := project.disk }, project)
  else match (session.analyze changes project.space.vault).1 with
    | .unreloadable =>
      ({ stdout := Report.marked .warning
            "Storage files changed in a way that cannot be reloaded safely"
         error := some unanswered
         disk := project.disk }, project)
    | .reloadable [] => ({ disk := project.disk }, project)
    | .reloadable names =>
      if project.space.isReloadPossible project.root names then
        match project.space.reinit project.root names true with
        | (.error e, space) => ({ error := some e.chain, disk := project.disk }, { project with space })
        | (.ok (), space) =>
          ({ stdout := Report.marked .done ("Reloaded " ++ Failure.commaList names)
             disk := project.disk }, { project with space })
      else
        ({ stdout := Report.marked .warning "A scope refused to reload the changed components"
           disk := project.disk }, project)

end Command

end ScopedState
