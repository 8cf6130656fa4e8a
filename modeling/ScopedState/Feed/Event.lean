/-
`Feed/Event.lean` -- changes of files, as notified and as events.

The system notifies kinds of happenings with a list of paths. A notice that
matters is turned into an event on one path; a rename that comes with both of
its paths is one event of its target. Later events of a path are folded into
the one that waits there, so that what is left tells what a reader who missed
everything in between has to know.
-/
import ScopedState.Path
set_option autoImplicit false

namespace ScopedState.Feed

/-! ## 1. Events -/

/-- A change of one path. -/
inductive Event where
  | created (path : Path)
  | modified (path : Path)
  | deleted (path : Path)
  | renamed (source target : Path)
  deriving DecidableEq, Repr, Inhabited

namespace Event

/-- The path whose content the event affects. -/
def path : Event → Path
  | created p => p
  | modified p => p
  | deleted p => p
  | renamed _ target => target

/-- Every path that the event touches. -/
def touched : Event → List Path
  | created p => [p]
  | modified p => [p]
  | deleted p => [p]
  | renamed source target => [source, target]

/-- **Fold a later event of the same path** into this one. A new file stays
new when it is modified; a deletion followed by a creation is a modification;
otherwise the later event counts. -/
def absorb : Event → Event → Event
  | created p, modified _ => created p
  | deleted _, created p => modified p
  | _, later => later

end Event

/-! ## 2. Notices -/

/-- The kinds of happenings that are told apart. -/
inductive Notice.Kind where
  /-- Something happened. -/
  | any
  /-- A file or directory came into being. -/
  | create
  /-- Content, metadata or an unknown aspect changed, or a rename was seen
  from its target or from neither end. -/
  | modify
  /-- The path was renamed away. -/
  | renamedAway
  /-- The first path was renamed to the second. -/
  | renamedTo
  /-- A file or directory is gone. -/
  | remove
  /-- The path was read, or nothing that matters happened. -/
  | access
  deriving DecidableEq, Repr, Inhabited

/-- What the system tells. -/
structure Notice where
  kind : Notice.Kind
  paths : List Path
  deriving DecidableEq, Repr

/-- **The event of a notice**, if it matters. A notice without a path never
does, and an unspecific one does only when its two paths make it a rename. -/
def Event.ofNotice? (notice : Notice) : Option Event :=
  match notice.paths with
  | [] => none
  | first :: others =>
    match notice.kind, others.head? with
    | .create, _ => some (.created first)
    | .renamedTo, some target => some (.renamed first target)
    | .any, some target => some (.renamed first target)
    | .renamedAway, _ => some (.deleted first)
    | .renamedTo, none => some (.modified first)
    | .modify, _ => some (.modified first)
    | .remove, _ => some (.deleted first)
    | .any, none => none
    | .access, _ => none

end ScopedState.Feed
