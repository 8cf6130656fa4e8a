/-
`Session/Scope.lean` -- the save session of one scope.

The session captures, when it is opened, which components are stored in which
units. Staging asks each component of a unit for its state, turns known paths
in it into references, and stages the states of the unit together. A unit that
has to be written and is read-only is reported instead. A component that fails
to give its state ends the staging of the scope with nothing staged.

Finishing carries out the staged writes one after the other; a failed one does
not stop the others, and the first failure is reported.
-/
import ScopedState.Macros
import ScopedState.Session.Participant
import ScopedState.Vault
set_option autoImplicit false

namespace ScopedState

/-- A unit of a scope with the components stored in it. -/
structure Slot where
  unit : Path
  storage : StorageId
  components : List (String × ComponentId)
  deriving Repr, Inhabited

/-- The save session of one scope. -/
structure ScopeSession (δ : Type) where
  scope : ScopeId
  name : String
  macros : Option MacroTable
  layout : List Slot
  staged : List (StagedWrite δ) := []
  phase : Phase := .open

namespace ScopeSession

variable {β δ : Type} [Backing β] [DecidableEq δ] [Digest δ]

/-! ## 1. Staging -/

/-- The states of the listed components, paths turned into references. -/
def collect (macros : Option MacroTable) (v : Vault β δ) :
    List (String × ComponentId) → Except Failure States
  | [] => .ok []
  | (name, id) :: rest =>
    match (v.component? id).elim (.ok none) Component.state with
    | .error e => .error e
    | .ok state =>
      match collect macros v rest with
      | .error e => .error e
      | .ok states => .ok (Bindings.insert states name (state.map (Substitutor.collapseWith macros)))

/-- Stage one unit. -/
def stageSlot (macros : Option MacroTable) (v : Vault β δ) (slot : Slot) :
    Except Failure (Option (StagedWrite δ)) :=
  match collect macros v slot.components with
  | .error e => .error e
  | .ok states => .ok (v.stage slot.storage states)

/-- What staging some units comes to. -/
structure Staging (δ : Type) where
  /-- The staged writes, or the failure that ended the staging. -/
  writes : Except Failure (List (StagedWrite δ))
  readOnly : List ReadOnlyTarget

/-- Stage one unit after the other. -/
def stageAll (name : String) (macros : Option MacroTable) (v : Vault β δ) :
    List Slot → Staging δ
  | [] => ⟨.ok [], []⟩
  | slot :: rest =>
    match stageSlot macros v slot with
    | .error e => ⟨.error (.staging name e), []⟩
    | .ok none => stageAll name macros v rest
    | .ok (some write) =>
      let out := stageAll name macros v rest
      if Backing.isWritable v.backing write.unit then
        ⟨out.writes.map (write :: ·), out.readOnly⟩
      else ⟨out.writes, ⟨name, write.unit⟩ :: out.readOnly⟩

/-- Stage what has to be written. -/
def save (s : ScopeSession δ) (v : Vault β δ) : Saved (ScopeSession δ) (Vault β δ) :=
  match checkPhase s.phase "save" with
  | .error e => ⟨.error e, [], s, v⟩
  | .ok () =>
    let out := stageAll s.name s.macros v s.layout
    match out.writes with
    | .error e => ⟨.error e, out.readOnly, { s with phase := .collecting, staged := [] }, v⟩
    | .ok staged => ⟨.ok (), out.readOnly, { s with phase := .collecting, staged }, v⟩

/-! ## 2. Ending -/

/-- Carry out staged writes one after the other. -/
def carryOutAll (name : String) : List (StagedWrite δ) → Vault β δ → Outcome × Vault β δ
  | [], v => (.ok (), v)
  | write :: rest, v =>
    let first := v.carryOut write
    let others := carryOutAll name rest first.2
    let outcome := match first.1 with
      | .ok () => .ok ()
      | .error e => .error (.commit name write.unit e)
    (firstFailure outcome others.1, others.2)

/-- Write what is staged. -/
def finish (s : ScopeSession δ) (v : Vault β δ) : Ended (ScopeSession δ) (Vault β δ) :=
  match checkPhase s.phase "finish" with
  | .error e => ⟨.error e, s, v⟩
  | .ok () =>
    let out := carryOutAll s.name s.staged v
    ⟨out.1, { s with phase := .finished, staged := [] }, out.2⟩

/-- Discard what is staged. -/
def reset (s : ScopeSession δ) (v : Vault β δ) : Ended (ScopeSession δ) (Vault β δ) :=
  match checkPhase s.phase "reset" with
  | .error e => ⟨.error e, s, v⟩
  | .ok () => ⟨.ok (), { s with phase := .reset, staged := [] }, v⟩

/-! ## 3. Questions -/

/-- What changes mean for the given units, added to the names found so far. -/
def analyzeAll (scope : ScopeId) (changes : ChangeSet) (v : Vault β δ) (names : List String) :
    List Slot → ExternalChanges
  | [] => .reloadable names
  | slot :: rest =>
    if changes.affects slot.unit scope then
      match v.changed slot.storage (slot.components.map Prod.fst) with
      | .error _ => .unreloadable
      | .ok more => analyzeAll scope changes v (Ascending.union names more) rest
    else analyzeAll scope changes v names rest

/-- What changes mean for the components of the scope. -/
def analyze (changes : ChangeSet) (s : ScopeSession δ) (v : Vault β δ) : ExternalChanges :=
  analyzeAll s.scope changes v [] s.layout

/-- The units of the scope. -/
def files (s : ScopeSession δ) : Paths := Paths.ofList (s.layout.map Slot.unit)

/-- The units with a staged write. -/
def filesToSave (s : ScopeSession δ) : Paths := Paths.ofList (s.staged.map StagedWrite.unit)

instance : Participant (ScopeSession δ) (Vault β δ) where
  scopeName := name
  phase := phase
  save := save
  finish := finish
  reset := reset
  analyze changes s v := (s.analyze changes v, v)
  files _ s v := (s.files, v)
  filesToSave _ s v := (s.filesToSave, v)

end ScopeSession

end ScopedState
