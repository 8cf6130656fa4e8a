/-
`Failure.lean` -- what can go wrong, and how it is told.

A failure is a value. Those that befall one participant of a save carry the
failure underneath as their source, so a report can be followed down to its
cause. A save of several scopes reports the first failure of a child and
counts the others.

`message` is the text of a failure with its sources worked in, `chain` the
texts of a failure and of each source below it.
-/
import ScopedState.Path
import ScopedState.Phase
set_option autoImplicit false

namespace ScopedState

/-- A failed operation. -/
inductive Failure where
  /-- The backing store could not read, write or delete a unit, or its content
  makes no sense. -/
  | backing (unit : Path) (reason : String)
  /-- A value could not be written as text or read from it. -/
  | serialization (reason : String)
  /-- The operating system refused. -/
  | io (reason : String)
  /-- The writes of one scope could not be computed. -/
  | staging (scope : String) (source : Failure)
  /-- A staged unit of one scope could not be written. -/
  | commit (scope : String) (unit : Path) (source : Failure)
  /-- Some scope of a tree failed to finish: the first failure, and how many
  there were besides. -/
  | childSave (first : Failure) (suppressed : Nat)
  /-- Units that have to be written are read-only. -/
  | readOnly (units : List Path)
  /-- A session was used after its end. -/
  | invalidPhase (phase : Phase) (operation : String)
  /-- No component has this name. -/
  | unknownComponent (name : String)
  /-- The scope has a component of this name already. -/
  | duplicateComponent (name : String)
  /-- What was asked for makes no sense. -/
  | invalidInput (reason : String)
  /-- The configuration makes no sense. -/
  | config (reason : String)
  /-- The change feed failed. -/
  | watcher (reason : String)
  /-- A component could not give its state, or something else went wrong. -/
  | internal (reason : String)
  deriving DecidableEq, Repr, Inhabited

namespace Failure

/-! ## 1. Texts -/

/-- Texts with a comma and a blank between them. -/
def commaList (texts : List String) : String := ", ".intercalate texts

/-- The text of a failure. -/
def message : Failure → String
  | backing unit reason => "Backing store error on " ++ unit.text ++ ": " ++ reason
  | serialization reason => "Serialization error: " ++ reason
  | io reason => "IO error: " ++ reason
  | staging scope source =>
    "Failed to stage changes for scope '" ++ scope ++ "': " ++ source.message
  | commit scope unit source =>
    "Failed to write " ++ unit.text ++ " for scope '" ++ scope ++ "': " ++ source.message
  | childSave first suppressed =>
    "Save failed: " ++ first.message ++ " (" ++ toString suppressed
      ++ " further failure(s) suppressed)"
  | readOnly units => "Read-only storage files: " ++ commaList (units.map Path.text)
  | invalidPhase phase operation =>
    "Cannot " ++ operation ++ " a save session in state " ++ phase.label
  | unknownComponent name => "Unknown component '" ++ name ++ "'"
  | duplicateComponent name => "Component '" ++ name ++ "' is already registered"
  | invalidInput reason => "Invalid input: " ++ reason
  | config reason => "Configuration error: " ++ reason
  | watcher reason => "Watcher error: " ++ reason
  | internal reason => "Internal error: " ++ reason

/-! ## 2. What is underneath -/

/-- The failure of which this one tells. -/
def source? : Failure → Option Failure
  | staging _ source => some source
  | commit _ _ source => some source
  | childSave first _ => some first
  | _ => none

/-- The failures below this one, each the source of the one before. -/
def sources : Failure → List Failure
  | staging _ source => source :: source.sources
  | commit _ _ source => source :: source.sources
  | childSave first _ => first :: first.sources
  | _ => []

/-- **The first failure** of an aggregate of any depth; every other failure is
its own. -/
def first : Failure → Failure
  | childSave inner _ => inner.first
  | other => other

/-- The text of what is underneath a failure that is told by something other
than the library. -/
def foreignSource? : Failure → Option String
  | serialization reason => some reason
  | io reason => some reason
  | _ => none

/-- The texts of a failure and of everything underneath it, from the top. -/
def chain : Failure → List String
  | staging scope source => (staging scope source).message :: source.chain
  | commit scope unit source => (commit scope unit source).message :: source.chain
  | childSave inner n => (childSave inner n).message :: inner.chain
  | serialization reason => [(serialization reason).message, reason]
  | io reason => [(io reason).message, reason]
  | other => [other.message]

/-! ## 3. Kinds -/

/-- Whether a session was used after its end. -/
def isInvalidPhase : Failure → Bool
  | invalidPhase _ _ => true
  | _ => false

/-- Whether a staged unit could not be written. -/
def isCommit : Failure → Bool
  | commit _ _ _ => true
  | _ => false

/-- Whether the writes of a scope could not be computed. -/
def isStaging : Failure → Bool
  | staging _ _ => true
  | _ => false

end Failure

/-- The result of an operation that gives no value. -/
abbrev Outcome := Except Failure Unit

end ScopedState
