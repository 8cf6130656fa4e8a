/-
`Workspace.lean` -- scopes at work on one backing store.

A workspace is the state that all operations on scopes act on: the vault, the
scopes, their registries, the pools they draw from, and the open sessions.
Scopes, registries and pools are referred to by number, sessions by a handle of
the caller's choice.

A storage is in use as long as a scope in use maps it or a session refers to
it. A scope is in use as long as the caller holds it or a registry in use lists
it, a registry as long as the caller holds it or a scope in use has it. All
three follow from the state; what a scope's going out of use means for others
is worked out by `settle`.
-/
import ScopedState.Scope
import ScopedState.Session.Scope
import ScopedState.Session.Tree
import ScopedState.Text.Quoted
set_option autoImplicit false

namespace ScopedState

/-- Scopes, storages and sessions over one backing store. -/
structure Workspace (β δ : Type) where
  vault : Vault β δ
  /-- The scopes by number, those out of use among them. -/
  scopes : List Scope := []
  /-- The registries by number: the scopes that each lists, in order. -/
  registries : List (List ScopeId) := []
  pools : List Pool := []
  /-- The scopes that the caller holds. -/
  held : List ScopeId := []
  /-- The registries that the caller holds. -/
  heldRegistries : List RegistryId := []
  /-- The scopes in use. -/
  live : List ScopeId := []
  sessions : Bindings String (SessionTree (ScopeSession δ)) := []

namespace Workspace

variable {β δ : Type}

/-! ## 1. Looking around -/

/-- The scope with a number. -/
def scope? (w : Workspace β δ) (id : ScopeId) : Option Scope := w.scopes[id]?

/-- Change a scope. -/
def modifyScope (w : Workspace β δ) (id : ScopeId) (f : Scope → Scope) : Workspace β δ :=
  { w with scopes := w.scopes.modify id f }

/-- The scopes that a registry lists, in order. -/
def listed (w : Workspace β δ) (id : RegistryId) : List ScopeId := w.registries.getD id []

/-- The scopes below a scope, in order; none without a registry. -/
def children (w : Workspace β δ) (id : ScopeId) : List ScopeId :=
  ((w.scope? id).bind Scope.registry).elim [] w.listed

/-- The unit that a component of a scope is kept in. -/
def unitOf? (w : Workspace β δ) (id : ScopeId) (name : String) : Option Path :=
  ((w.scope? id).bind fun s => Bindings.get? s.components name).bind fun entry =>
    (w.vault.storage? entry.storage).map Storage.unit

/-- The pool with a number. -/
def pool (w : Workspace β δ) (id : PoolId) : Pool := w.pools.getD id []

/-- Whether a session of one scope refers to a storage. -/
def sessionHolds (id : StorageId) (s : ScopeSession δ) : Bool :=
  s.layout.any (fun slot => slot.storage = id) || s.staged.any (fun write => write.storage = id)

mutual

/-- Whether a session refers to a storage. -/
def treeHolds (id : StorageId) : SessionTree (ScopeSession δ) → Bool
  | .single s => sessionHolds id s
  | .group _ own members => treeHolds id own || anyHolds id members

/-- Whether one of some sessions refers to a storage. -/
def anyHolds (id : StorageId) : List (SessionTree (ScopeSession δ)) → Bool
  | [] => false
  | t :: ts => treeHolds id t || anyHolds id ts

end

/-- Whether a storage is in use. -/
def inUse (w : Workspace β δ) (id : StorageId) : Bool :=
  w.live.any (fun scope => (w.scope? scope).any fun s => s.holds id)
    || anyHolds id (Bindings.values w.sessions)

/-- The number of storages of a pool that are in use. -/
def poolSize (w : Workspace β δ) (id : PoolId) : Nat := (w.pool id).size w.inUse

/-- The tree below a scope. `fuel` bounds its height. -/
def treeWithin (w : Workspace β δ) : Nat → ScopeId → ScopeTree
  | 0, id => .node id []
  | fuel + 1, id =>
    .node id ((w.children id).map (treeWithin w fuel))

/-- **The tree below a scope.** As scopes do not list themselves, directly or
through others, no branch is longer than there are scopes. -/
def tree (w : Workspace β δ) (id : ScopeId) : ScopeTree := w.treeWithin w.scopes.length id

/-! ## 2. Making and releasing scopes and registries -/

/-- Add a pool. -/
def addPool (w : Workspace β δ) : PoolId × Workspace β δ :=
  (w.pools.length, { w with pools := w.pools ++ [[]] })

/-- Add a scope, held by the caller. -/
def addScope (w : Workspace β δ) (s : Scope) : ScopeId × Workspace β δ :=
  let id := w.scopes.length
  (id, { w with scopes := w.scopes ++ [s], held := id :: w.held, live := id :: w.live })

/-- Whether a registry is held, or a scope in use has it. -/
def isConsulted (w : Workspace β δ) (id : RegistryId) : Bool :=
  w.heldRegistries.contains id
    || w.live.any fun scope => (w.scope? scope).any fun s => s.registry = some id

/-- Whether a scope is held, or listed by a registry in use. -/
def isReferred (w : Workspace β δ) (id : ScopeId) : Bool :=
  w.held.contains id
    || (List.range w.registries.length).any fun r => w.isConsulted r && (w.listed r).contains id

/-- One round of taking out of use what nothing refers to. -/
def sweep (w : Workspace β δ) : Workspace β δ :=
  { w with live := w.live.filter w.isReferred }

/-- Take out of use what nothing refers to, until nothing is left to take. -/
def settle (w : Workspace β δ) : Workspace β δ :=
  w.scopes.foldl (fun w _ => w.sweep) w

/-- The caller lets go of a scope. -/
def release (w : Workspace β δ) (id : ScopeId) : Workspace β δ :=
  { w with held := w.held.filter (· ≠ id) }.settle

/-- The caller lets go of a registry. -/
def releaseRegistry (w : Workspace β δ) (id : RegistryId) : Workspace β δ :=
  { w with heldRegistries := w.heldRegistries.filter (· ≠ id) }.settle

/-! ## 3. Registries -/

/-- Give a scope a new registry without entries, held by the caller. -/
def attach (w : Workspace β δ) (id : ScopeId) : RegistryId × Workspace β δ :=
  let registry := w.registries.length
  let w := { w with
    registries := w.registries ++ [[]]
    heldRegistries := registry :: w.heldRegistries }
  (registry, (w.modifyScope id fun s => { s with registry := some registry }).settle)

/-- List a scope in a registry; one that is listed stays. -/
def register (w : Workspace β δ) (id : RegistryId) (child : ScopeId) : Workspace β δ :=
  { w with registries :=
      w.registries.modify id fun ids => if ids.contains child then ids else ids ++ [child] }

/-- Take a scope off a registry. -/
def unregister (w : Workspace β δ) (id : RegistryId) (child : ScopeId) : Workspace β δ :=
  { w with registries := w.registries.modify id fun ids => ids.filter (· ≠ child) }.settle

/-- The name of a scope. -/
def nameOf (w : Workspace β δ) (id : ScopeId) : String := (w.scope? id).elim "" Scope.name

/-- The first scope of a name in a registry. -/
def findListed? (w : Workspace β δ) (id : RegistryId) (name : String) : Option ScopeId :=
  (w.listed id).find? fun child => w.nameOf child = name

/-- The names in a registry, in order, for a reader who debugs. -/
def registryText (w : Workspace β δ) (id : RegistryId) : String :=
  "ModuleRegistry \x7b modules: ["
    ++ ", ".intercalate ((w.listed id).map fun child => Quoted.quote (w.nameOf child)) ++ "] \x7d"

/-! ## 4. Components -/

section Steps

variable [Backing β] [DecidableEq δ] [Digest δ]

/-- The storage that a scope uses for a unit: its own if it maps the unit, and
else that of its pool. -/
def storageFor (w : Workspace β δ) (id : ScopeId) (s : Scope) (unit : Path) (template : String) :
    Except Failure (StorageId × Workspace β δ) :=
  match Bindings.get? s.storages unit.location with
  | some (_, storage) => .ok (storage, w)
  | none =>
    match (w.pool s.pool).obtain w.inUse unit template w.vault with
    | .error e => .error e
    | .ok (storage, pool, vault) =>
      let w := { w with vault, pools := w.pools.set s.pool pool }
      .ok (storage, w.modifyScope id fun s =>
        { s with storages := Bindings.insert s.storages unit.location (unit, storage) })

/-- Hand a component of a scope what its storage remembers for it, references
turned into paths. -/
def loadComponent (w : Workspace β δ) (id : ScopeId) (name : String) (entry : Entry) :
    Workspace β δ :=
  match (w.vault.storage? entry.storage).bind fun s => s.state? name with
  | none => { w with vault := w.vault.modifyComponent entry.component fun c => c.load none }
  | some stored =>
    let (v, substitutor) :=
      Substitutor.expandWith ((w.scope? id).bind Scope.substitutor) stored
    { w with vault := w.vault.modifyComponent entry.component fun c => c.load (some v) }.modifyScope
      id fun s => { s with substitutor }

/-- The unit that a template names in a scope. -/
def expandTemplate (w : Workspace β δ) (id : ScopeId) (template : String) :
    Path × Workspace β δ :=
  match (w.scope? id).bind Scope.substitutor with
  | none => (⟨template⟩, w)
  | some sub =>
    let (text, sub) := sub.expand template
    (⟨text⟩, w.modifyScope id fun s => { s with substitutor := some sub })

/-- **Register** a component: map it to the unit that the template names, and
hand it what is stored there. The unit is given as this template names it. -/
def addComponent (w : Workspace β δ) (id : ScopeId) (component : ComponentId) (name : String)
    (template : String) : Except Failure Path × Workspace β δ :=
  if (w.scope? id).any fun s => Bindings.binds s.components name then
    (.error (.duplicateComponent name), w)
  else
    let (unit, w) := w.expandTemplate id template
    match w.scope? id with
    | none => (.ok unit, w)
    | some s =>
      match w.storageFor id s unit template with
      | .error e => (.error e, w)
      | .ok (storage, w) =>
        let entry : Entry := ⟨component, storage⟩
        let w := w.loadComponent id name entry
        (.ok unit, w.modifyScope id fun s =>
          { s with components := Bindings.insert s.components name entry })

/-! ## 5. Reloading -/

/-- The named components that a scope has, in the order of the names. -/
def targets (s : Scope) (names : List String) : List (String × Entry) :=
  names.filterMap fun name => (Bindings.get? s.components name).map fun entry => (name, entry)

/-- Load storages again, one after the other, each once; the first that fails
ends it. -/
def loadStorages (done : List StorageId) : List StorageId → Vault β δ → Outcome × Vault β δ
  | [], v => (.ok (), v)
  | id :: rest, v =>
    if done.contains id then loadStorages done rest v
    else match v.load id with
      | (.error e, v) => (.error e, v)
      | (.ok (), v) => loadStorages (id :: done) rest v

/-- Hand the named components of one scope what their storages remember, after
loading these again if `reload` is set. -/
def reinitOwn (w : Workspace β δ) (id : ScopeId) (names : List String) (reload : Bool) :
    Outcome × Workspace β δ :=
  let targets := (w.scope? id).elim [] fun s => targets s names
  let loaded := if reload then loadStorages [] (targets.map fun t => t.2.storage) w.vault
    else (.ok (), w.vault)
  let w := { w with vault := loaded.2 }
  match loaded.1 with
  | .error e => (.error e, w)
  | .ok () => (.ok (), targets.foldl (fun w t => w.loadComponent id t.1 t.2) w)

mutual

/-- **Reinitialise** the named components of a tree, each scope before those
below it. The first failure ends it. -/
def reinitTree (names : List String) (reload : Bool) :
    ScopeTree → Workspace β δ → Outcome × Workspace β δ
  | .node id children, w =>
    match w.reinitOwn id names reload with
    | (.error e, w) => (.error e, w)
    | (.ok (), w) => reinitAll names reload children w

/-- Reinitialise the named components of one tree after the other. -/
def reinitAll (names : List String) (reload : Bool) :
    List ScopeTree → Workspace β δ → Outcome × Workspace β δ
  | [], w => (.ok (), w)
  | t :: ts, w =>
    match reinitTree names reload t w with
    | (.error e, w) => (.error e, w)
    | (.ok (), w) => reinitAll names reload ts w

end

/-- Reinitialise the named components of a scope and of all below it. -/
def reinit (w : Workspace β δ) (id : ScopeId) (names : List String) (reload : Bool) :
    Outcome × Workspace β δ :=
  reinitTree (Ascending.ofList names) reload (w.tree id) w

end Steps

/-- Whether the named components of one scope all take a reload. -/
def ownReloadPossible (w : Workspace β δ) (names : List String) (id : ScopeId) : Bool :=
  ((w.scope? id).elim [] fun s => targets s names).all fun t =>
    (w.vault.component? t.2.component).all Component.reloadable

/-- **Whether a reload is possible**: every named component of a scope and of
all below it takes one. -/
def isReloadPossible (w : Workspace β δ) (id : ScopeId) (names : List String) : Bool :=
  (w.tree id).scopes.all (w.ownReloadPossible names)

/-- The scopes with path variables, of a scope and all below it. -/
def withSubstitutors (w : Workspace β δ) (id : ScopeId) : List ScopeId :=
  (w.tree id).scopes.filter fun id => ((w.scope? id).bind Scope.substitutor).isSome

/-- Expand a text by the variables of the given scopes, one after the other:
for each the variables that were unknown to it before, and the text. With
`forget` they are forgotten first. -/
def expandIn (w : Workspace β δ) (text : String) (forget : Bool) :
    List ScopeId → List (List String × String) × Workspace β δ
  | [] => ([], w)
  | id :: rest =>
    match (w.scope? id).bind Scope.substitutor with
    | none => expandIn w text forget rest
    | some s =>
      let (expanded, after) := (if forget then s.forget else s).expand text
      let w := w.modifyScope id fun scope => { scope with substitutor := some after }
      let (others, w) := expandIn w text forget rest
      ((s.unknown, expanded) :: others, w)

/-- Expand a text in every scope with path variables, of a scope and all below
it. -/
def expandEach (w : Workspace β δ) (id : ScopeId) (text : String) (forget : Bool) :
    List (List String × String) × Workspace β δ :=
  w.expandIn text forget (w.withSubstitutors id)

/-! ## 6. Saving -/

/-- The units of a scope with the components stored in each, both in order. -/
def layout (w : Workspace β δ) (s : Scope) : List Slot :=
  (Bindings.values s.storages).map fun held =>
    { unit := (w.vault.storage? held.2).elim held.1 Storage.unit
      storage := held.2
      components := (s.components.filter fun c => c.2.storage = held.2).map
        fun c => (c.1, c.2.component) }

/-- The session of one scope. -/
def openScope (w : Workspace β δ) (id : ScopeId) : ScopeSession δ :=
  match w.scope? id with
  | none => { scope := id, name := "", macros := none, layout := [] }
  | some s =>
    { scope := id, name := s.name, macros := s.substitutor.map Substitutor.table
      layout := w.layout s }

mutual

/-- The session of a tree of scopes. -/
def openTree (w : Workspace β δ) : ScopeTree → SessionTree (ScopeSession δ)
  | .node id children => .group .open (.single (w.openScope id)) (openAll w children)

/-- The sessions of a list of trees. -/
def openAll (w : Workspace β δ) : List ScopeTree → List (SessionTree (ScopeSession δ))
  | [] => []
  | t :: ts => openTree w t :: openAll w ts

end

/-- **Open a session** over a scope and all below it. -/
def startSave (w : Workspace β δ) (id : ScopeId) : SessionTree (ScopeSession δ) :=
  w.openTree (w.tree id)

section Save

variable [Backing β] [DecidableEq δ] [Digest δ]

/-- **Save** a scope and all below it in one session. Read-only units end it
before anything is written; a staging failure does not, and is reported after
the rest has been written. -/
def save (w : Workspace β δ) (id : ScopeId) : Outcome × Workspace β δ :=
  let staged := (w.startSave id).save w.vault
  if staged.readOnly.isEmpty then
    let finished := staged.session.finish staged.world
    (firstFailure staged.outcome finished.outcome, { w with vault := finished.world })
  else
    let ended := staged.session.reset staged.world
    (firstFailure ended.outcome (.error (.readOnly (staged.readOnly.map ReadOnlyTarget.unit))),
      { w with vault := ended.world })

end Save

end Workspace

end ScopedState
