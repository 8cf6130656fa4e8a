/-
`Session/Tree.lean` -- the save session of a tree of scopes.

A group is the session of a scope together with the sessions of its children,
fixed when the group is formed. Staging goes from the scope to its children,
and a failure stops nobody. Finishing goes from the children to the scope:
every child is finished even when others have failed, and the scope itself is
finished in any case. What has been written stays written. The failure that is
reported is the first one in this order; if it is a child's, it is wrapped
with the number of the others.

Each call is one recursion over the tree and one over the list of members.
-/
import ScopedState.Session.Participant
set_option autoImplicit false

namespace ScopedState

/-- A participant, or a scope's session with those of its children. -/
inductive SessionTree (α : Type) where
  | single (part : α)
  | group (phase : Phase) (own : SessionTree α) (members : List (SessionTree α))
  deriving Inhabited

namespace SessionTree

variable {α σ : Type} [Participant α σ]

/-! ## 1. Shape -/

/-- The sessions of the children. -/
def members : SessionTree α → List (SessionTree α)
  | single _ => []
  | group _ _ members => members

mutual

/-- The number of participants. -/
def count : SessionTree α → Nat
  | single _ => 1
  | group _ own members => own.count + countAll members

/-- The number of participants in a list of sessions. -/
def countAll : List (SessionTree α) → Nat
  | [] => 0
  | t :: ts => t.count + countAll ts

end

/-- Where the session stands. -/
def phase (σ : Type) [Participant α σ] : SessionTree α → Phase
  | single part => Participant.phase σ part
  | group phase _ _ => phase

/-- The name of the scope that the session was opened on. -/
def scopeName (σ : Type) [Participant α σ] : SessionTree α → String
  | single part => Participant.scopeName σ part
  | group _ own _ => own.scopeName σ

/-! ## 2. Staging -/

mutual

/-- **Stage**: the scope first, then its children. The first failure is
reported. -/
def save : SessionTree α → σ → Saved (SessionTree α) σ
  | single part, w =>
    let out := Participant.save part w
    ⟨out.outcome, out.readOnly, single out.session, out.world⟩
  | group phase own members, w =>
    match checkPhase phase "save" with
    | .error e => ⟨.error e, [], group phase own members, w⟩
    | .ok () =>
      let first := own.save w
      let rest := saveAll members first.world
      ⟨firstFailure first.outcome rest.outcome, first.readOnly ++ rest.readOnly,
        group .collecting first.session rest.session, rest.world⟩

/-- Stage one session after the other. -/
def saveAll : List (SessionTree α) → σ → Saved (List (SessionTree α)) σ
  | [], w => ⟨.ok (), [], [], w⟩
  | t :: ts, w =>
    let first := t.save w
    let rest := saveAll ts first.world
    ⟨firstFailure first.outcome rest.outcome, first.readOnly ++ rest.readOnly,
      first.session :: rest.session, rest.world⟩

end

/-! ## 3. Finishing -/

/-- The outcome of a group, from the failures of its members in order and the
outcome of its own scope. -/
def groupOutcome (failures : List Failure) (own : Outcome) : Outcome :=
  match failures, own with
  | [], own => own
  | first :: rest, .ok () => .error (.childSave first rest.length)
  | first :: rest, .error _ => .error (.childSave first (rest.length + 1))

/-- What is left after every member of a group has finished. -/
structure Finished (α σ : Type) where
  failures : List Failure
  sessions : List (SessionTree α)
  world : σ

mutual

/-- **Finish**: the children first, then the scope itself, whatever became of
the children. -/
def finish : SessionTree α → σ → Ended (SessionTree α) σ
  | single part, w =>
    let out := Participant.finish part w
    ⟨out.outcome, single out.session, out.world⟩
  | group phase own members, w =>
    match checkPhase phase "finish" with
    | .error e => ⟨.error e, group phase own members, w⟩
    | .ok () =>
      let children := finishAll members w
      let last := own.finish children.world
      ⟨groupOutcome children.failures last.outcome,
        group .finished last.session children.sessions, last.world⟩

/-- Finish one session after the other and gather the failures. -/
def finishAll : List (SessionTree α) → σ → Finished α σ
  | [], w => ⟨[], [], w⟩
  | t :: ts, w =>
    let first := t.finish w
    let rest := finishAll ts first.world
    let failures := match first.outcome with
      | .ok () => rest.failures
      | .error e => e :: rest.failures
    ⟨failures, first.session :: rest.sessions, rest.world⟩

end

/-! ## 4. Resetting -/

mutual

/-- **Reset**: the children first, then the scope itself. Only the outcome of
the scope counts. -/
def reset : SessionTree α → σ → Ended (SessionTree α) σ
  | single part, w =>
    let out := Participant.reset part w
    ⟨out.outcome, single out.session, out.world⟩
  | group phase own members, w =>
    match checkPhase phase "reset" with
    | .error e => ⟨.error e, group phase own members, w⟩
    | .ok () =>
      let children := resetAll members w
      let last := own.reset children.2
      ⟨last.outcome, group .reset last.session children.1, last.world⟩

/-- Reset one session after the other. -/
def resetAll : List (SessionTree α) → σ → List (SessionTree α) × σ
  | [], w => ([], w)
  | t :: ts, w =>
    let first := t.reset w
    let rest := resetAll ts first.world
    (first.session :: rest.1, rest.2)

end

/-! ## 5. Questions -/

mutual

/-- **What changes mean** for the whole tree. The first scope that cannot tell
settles it. -/
def analyze (changes : ChangeSet) : SessionTree α → σ → ExternalChanges × σ
  | single part, w => Participant.analyze changes part w
  | group _ own members, w =>
    match own.analyze changes w with
    | (.unreloadable, w) => (.unreloadable, w)
    | (.reloadable names, w) => analyzeAll changes names members w

/-- Add what changes mean for a list of sessions to the names found so far. -/
def analyzeAll (changes : ChangeSet) (names : List String) :
    List (SessionTree α) → σ → ExternalChanges × σ
  | [], w => (.reloadable names, w)
  | t :: ts, w =>
    match t.analyze changes w with
    | (.unreloadable, w) => (.unreloadable, w)
    | (.reloadable more, w) => analyzeAll changes (Ascending.union names more) ts w

end

mutual

/-- The units of the scope, and those of every scope below it if asked. -/
def files (below : Bool) : SessionTree α → σ → Paths × σ
  | single part, w => Participant.files below part w
  | group _ own members, w =>
    let first := own.files false w
    if below then filesAll first.1 members first.2 else first

/-- Add the units of a list of sessions to those found so far. -/
def filesAll (found : Paths) : List (SessionTree α) → σ → Paths × σ
  | [], w => (found, w)
  | t :: ts, w =>
    let first := t.files true w
    filesAll (Bindings.union found first.1) ts first.2

end

mutual

/-- The units with a staged write in the scope, and in every scope below it if
asked. -/
def filesToSave (below : Bool) : SessionTree α → σ → Paths × σ
  | single part, w => Participant.filesToSave below part w
  | group _ own members, w =>
    let first := own.filesToSave false w
    if below then filesToSaveAll first.1 members first.2 else first

/-- Add the units to save of a list of sessions to those found so far. -/
def filesToSaveAll (found : Paths) : List (SessionTree α) → σ → Paths × σ
  | [], w => (found, w)
  | t :: ts, w =>
    let first := t.filesToSave true w
    filesToSaveAll (Bindings.union found first.1) ts first.2

end

end SessionTree

end ScopedState
