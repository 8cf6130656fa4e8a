/-
`Project.lean` -- the scopes of a project on disk.

A project is opened from the directory with its manifest. The project itself
is a scope, and so is each of its modules; all of them share one pool, and the
modules are listed in the registry of the project's scope. Each scope keeps
its storage files in its state directory, and each field at the top of such a
file is a component of the scope.

Components that are asked for and do not exist are made in the default storage
file of their scope.
-/
import ScopedState.Backing.LocalFiles
import ScopedState.Log
import ScopedState.Manifest
import ScopedState.Settings
import ScopedState.Workspace
set_option autoImplicit false

namespace ScopedState

/-- One scope of a project. -/
structure ProjectScope where
  name : String
  dir : Path
  scope : ScopeId
  components : Bindings String ComponentId := []
  deriving Repr, Inhabited

/-- A project that has been opened. -/
structure Project (δ : Type) where
  dir : Path
  manifest : Manifest
  settings : Settings
  space : Workspace LocalFiles δ
  /-- The scope of the project, and behind it those of its modules in the order
  of the manifest. -/
  scopes : List ProjectScope := []

namespace Project

variable {δ : Type}

/-! ## 1. Looking around -/

/-- The scope of the project itself. -/
def root (p : Project δ) : ScopeId := p.scopes.head?.elim 0 ProjectScope.scope

/-- The first scope of a name. -/
def scope? (p : Project δ) (name : String) : Option ProjectScope :=
  p.scopes.find? fun s => s.name = name

/-- The disk that the project is on. -/
def disk (p : Project δ) : Disk := p.space.vault.backing.disk

/-- The project on a disk that has changed. -/
def withDisk (p : Project δ) (disk : Disk) : Project δ :=
  let backing := { p.space.vault.backing with disk }
  { p with space := { p.space with vault := { p.space.vault with backing } } }

/-- The number of modules in the registry of the project. -/
def moduleCount (p : Project δ) : Nat := (p.space.children p.root).length

/-- Every component name of the project. -/
def componentNames (p : Project δ) : List String :=
  Ascending.ofList (p.scopes.flatMap fun s => (p.space.scope? s.scope).elim [] Scope.names)

/-- The value of a component. -/
def value? (p : Project δ) (id : ComponentId) : Option Json :=
  (p.space.vault.component? id).bind Component.value

/-- Change a component. -/
def modify (p : Project δ) (id : ComponentId) (f : Component → Component) : Project δ :=
  { p with space := { p.space with vault := p.space.vault.modifyComponent id f } }

/-- The unit of a component of a scope, under the text of its storage. -/
def unitOf (p : Project δ) (s : ProjectScope) (name : String) : String :=
  (p.space.unitOf? s.scope name).elim "" Path.text

/-- The one scope that maps a unit; none if several do. -/
def ownerOf (p : Project δ) (unit : Path) : Option ScopeId :=
  match p.scopes.filter fun s => (p.space.scope? s.scope).any fun s => s.maps unit with
  | [only] => some only.scope
  | _ => none

/-- Changes **attributed** to the scopes that own their units. -/
def attributed (p : Project δ) (changes : ChangeSet) : ChangeSet :=
  ChangeSet.ofList (changes.toList.map fun change =>
    match p.ownerOf change.unit with
    | some owner => ⟨change.unit, some owner⟩
    | none => change)

/-! ## 2. Components -/

section Components

variable [DecidableEq δ] [Digest δ]

/-- Replace a scope of the project, found by its number. -/
def withScope (p : Project δ) (s : ProjectScope) : Project δ :=
  { p with scopes := p.scopes.map fun t => if t.scope = s.scope then s else t }

/-- Make a component in a scope. -/
def register (space : Workspace LocalFiles δ) (s : ProjectScope) (name template : String) :
    Except Failure (ComponentId × ProjectScope) × Workspace LocalFiles δ :=
  let (id, vault) := space.vault.addComponent { name }
  match { space with vault }.addComponent s.scope id name template with
  | (.error e, space) => (.error e, space)
  | (.ok _, space) =>
    (.ok (id, { s with components := Bindings.insert s.components name id }), space)

/-- The template of a storage file in the state directory of a scope. -/
def template (settings : Settings) (fileName : String) : String :=
  "$" ++ MacroTable.scopeDir ++ "$/" ++ settings.stateDir ++ "/" ++ fileName

/-- The storage file of components that are made on request. -/
def defaultFile (settings : Settings) : String := "misc." ++ settings.extension

/-- **A component of a scope**, made in the default storage file of the scope
if it does not exist. -/
def componentOrCreate (p : Project δ) (scope name : String) :
    Except Failure ComponentId × Project δ :=
  match p.scope? scope with
  | none => (.error (.invalidInput ("Unknown scope '" ++ scope ++ "'")), p)
  | some s =>
    match Bindings.get? s.components name with
    | some id => (.ok id, p)
    | none =>
      match register p.space s name (template p.settings (defaultFile p.settings)) with
      | (.error e, space) => (.error e, { p with space })
      | (.ok (id, s), space) => (.ok id, { p with space }.withScope s)

/-! ## 3. Opening -/

/-- Make the components of a storage file. -/
def registerAll (template : String) : List String → ProjectScope → Workspace LocalFiles δ →
    Outcome × ProjectScope × Workspace LocalFiles δ
  | [], s, space => (.ok (), s, space)
  | name :: rest, s, space =>
    match register space s name template with
    | (.error e, space) => (.error e, s, space)
    | (.ok (_, s), space) => registerAll template rest s space

/-- Make the components of one storage file after the other. A blank file has
none. -/
def discoverFiles (settings : Settings) : List Path → ProjectScope → Workspace LocalFiles δ →
    Outcome × ProjectScope × Workspace LocalFiles δ
  | [], s, space => (.ok (), s, space)
  | file :: rest, s, space =>
    match space.vault.backing.disk.read file with
    | .error e => (.error (.io e.message), s, space)
    | .ok bytes =>
      if Blank.isBlankContent bytes then discoverFiles settings rest s space
      else match Json.objectOfBytes bytes with
        | .error fault => (.error (.invalidInput (file.text ++ ": " ++ fault.message)), s, space)
        | .ok document =>
          match file.fileName? with
          | none => discoverFiles settings rest s space
          | some name =>
            match registerAll (template settings name) (Bindings.keys document) s space with
            | (.error e, s, space) => (.error e, s, space)
            | (.ok (), s, space) => discoverFiles settings rest s space

/-- The storage files in a directory, in order. -/
def storageFiles (d : Disk) (settings : Settings) (dir : Path) : Except OsError (List Path) :=
  match d.list dir with
  | .error e => .error e
  | .ok names =>
    let files := (names.map fun name => dir.join ⟨name⟩).filter fun file =>
      d.isFile file && file.extension? = some settings.extension
    .ok (Paths.ofList files).toList

/-- **Discover** the components of a scope from the storage files in its state
directory. -/
def discover (settings : Settings) (s : ProjectScope) (space : Workspace LocalFiles δ) :
    Outcome × ProjectScope × Workspace LocalFiles δ :=
  let dir := settings.stateDirFor s.dir
  let d := space.vault.backing.disk
  if d.isDirectory dir then
    match storageFiles d settings dir with
    | .error e => (.error (.io e.message), s, space)
    | .ok files => discoverFiles settings files s space
  else (.ok (), s, space)

/-- Open a scope of the project: its variables are its own directory and that
of the project. -/
def openScope (settings : Settings) (projectDir : Path) (pool : PoolId) (name : String)
    (dir : Path) (space : Workspace LocalFiles δ) :
    Outcome × ProjectScope × Workspace LocalFiles δ :=
  let table := (MacroTable.forScope dir).define MacroTable.projectDir projectDir
  let (scope, space) := space.addScope { name, pool, substitutor := some { table } }
  discover settings { name, dir, scope } space

/-- How far the opening of a project has come: the scopes that are open, and
the workspace that they and perhaps one more are in. -/
structure Opening (δ : Type) where
  outcome : Outcome := .ok ()
  scopes : List ProjectScope := []
  space : Workspace LocalFiles δ

/-- Open the modules of a project, listing each in a registry. -/
def openModules (settings : Settings) (projectDir : Path) (pool : PoolId)
    (registry : RegistryId) :
    List ModuleEntry → List ProjectScope → Workspace LocalFiles δ → Opening δ
  | [], scopes, space => { scopes, space }
  | entry :: rest, scopes, space =>
    match openScope settings projectDir pool entry.name (projectDir.join entry.dir) space with
    | (.error e, _, space) => { outcome := .error e, scopes, space }
    | (.ok (), s, space) =>
      openModules settings projectDir pool registry rest (scopes ++ [s])
        (space.register registry s.scope)

/-- Open the scopes of a project. -/
def openScopes (settings : Settings) (manifest : Manifest) (dir : Path)
    (space : Workspace LocalFiles δ) : Opening δ :=
  let (pool, space) := space.addPool
  match openScope settings dir pool manifest.name dir space with
  | (.error e, _, space) => { outcome := .error e, space }
  | (.ok (), s, space) =>
    let (registry, space) := space.attach s.scope
    openModules settings dir pool registry manifest.modules [s] space

/-- What the scopes of a workspace tell: that components were registered and
their storages loaded, and that there were references to unknown names. -/
def contentEvents (space : Workspace LocalFiles δ) : List Log.Event :=
  Log.when (space.scopes.any fun s => !s.components.isEmpty)
      [⟨.debug, .storage, "storages loaded"⟩, ⟨.debug, .store, "components registered"⟩]
    ++ Log.when (space.scopes.any fun s => s.substitutor.any fun t => !t.unknown.isEmpty)
      [⟨.debug, .substitutor, "unknown references"⟩]

/-- What the opening of a project tells. -/
def Opening.events (o : Opening δ) : List Log.Event :=
  contentEvents o.space
    ++ Log.when (!o.scopes.isEmpty) [⟨.debug, .project, "scopes discovered"⟩]
    ++ Log.when (1 < o.scopes.length) [⟨.debug, .registry, "modules registered"⟩]
    ++ Log.when o.outcome.toOption.isSome [⟨.info, .project, "project opened"⟩]

/-- Open the project in a directory, with what that tells. -/
def attempt (d : Disk) (dir : Path) (settings : Settings) :
    Except Failure (Project δ) × List Log.Event :=
  match d.canonical dir with
  | .error e =>
    (.error (.invalidInput ("Cannot open project " ++ dir.text ++ ": " ++ e.message)), [])
  | .ok dir =>
    if d.isFile (dir.join ⟨Manifest.fileName⟩) then
      match Manifest.load d dir with
      | .error fault => (.error fault.failure, [])
      | .ok manifest =>
        let files : LocalFiles := { disk := d, durable := settings.durableWrites }
        let opening := openScopes settings manifest dir { vault := { backing := files } }
        (opening.outcome.map fun () =>
            { dir, manifest, settings, space := opening.space, scopes := opening.scopes },
          opening.events)
    else (.error (.invalidInput (dir.text ++ " has no " ++ Manifest.fileName)), [])

/-- **Open** the project in a directory. -/
def «open» (d : Disk) (dir : Path) (settings : Settings) : Except Failure (Project δ) :=
  (attempt d dir settings).1

/-- **Save** every scope of the project. -/
def save (p : Project δ) : Outcome × Project δ :=
  let out := p.space.save p.root
  (out.1, { p with space := out.2 })

end Components

end Project

end ScopedState
