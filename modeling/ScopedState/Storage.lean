/-
`Storage.lean` -- one unit, shared by the components mapped to it.

On disk a unit is a JSON object with one field per component. In memory it is
a snapshot: the document last loaded or written, and the digest of its bytes,
or no digest when the unit was not there. Everything else is computed against
that snapshot. Staging merges the states of some components into the document
and tells what would have to be written, if anything; comparing takes bytes
found on disk and tells which components they differ in.

A staged write remembers the digest it was based on. When the snapshot has
moved on by the time the write is due, the states are merged again into what
is there then, so a write never takes back what someone else has written in
between.
-/
import ScopedState.Digest
import ScopedState.Failure
import ScopedState.Json.Reader
import ScopedState.Json.Writer
import ScopedState.Text.Blank
set_option autoImplicit false

namespace ScopedState

/-! ## 1. Documents -/

/-- The parsed content of a unit: component name to state. -/
abbrev Document := Bindings String Json

/-- The states of some components, none for one with nothing to persist. -/
abbrev States := Bindings String (Option Json)

namespace Document

/-- Whether two documents bind the same names to equal states. -/
def same (d e : Document) : Bool := Json.sameFields d e

/-- The bytes of a document. -/
def serialize (d : Document) : Bytes := Utf8.encode (Json.toStored (.object d))

/-- The document of some bytes. Blank content is an empty document. -/
def parse (unit : Path) (bytes : Bytes) : Except Failure Document :=
  if Blank.isBlankContent bytes then .ok []
  else match Json.objectOfBytes bytes with
    | .ok d => .ok d
    | .error fault => .error (.backing unit ("malformed storage content: " ++ fault.message))

/-- The document with one state replaced or removed. -/
def put (d : Document) (name : String) (state : Option Json) : Document :=
  match state with
  | some v => Bindings.insert d name v
  | none => Bindings.erase d name

/-- The document with states merged in; the other entries stay. -/
def merge (d : Document) (states : States) : Document :=
  states.foldl (fun d entry => put d entry.1 entry.2) d

end Document

/-! ## 2. Snapshots -/

/-- What is remembered of a unit. -/
structure Snapshot (δ : Type) where
  document : Document := []
  /-- The digest of the bytes last loaded or written; none if the unit was not
  there. -/
  hash : Option δ := none

/-- A write computed from a snapshot. -/
structure Draft (δ : Type) where
  bytes : Bytes
  hash : δ
  document : Document
  /-- The states that were merged. -/
  states : States
  /-- The digest of the snapshot that they were merged into. -/
  base : Option δ

namespace Snapshot

variable {δ : Type} [DecidableEq δ] [Digest δ]

/-- The snapshot of a unit with the given content. -/
def ofContent (unit : Path) (content : Option Bytes) : Except Failure (Snapshot δ) :=
  match content with
  | none => .ok {}
  | some bytes =>
    match Document.parse unit bytes with
    | .ok d => .ok { document := d, hash := some (Digest.ofBytes bytes) }
    | .error e => .error e

/-- **Stage** some states: what has to be written to persist them. Nothing has
to be when the document stays the same, unless that document is not on disk at
all, nor when the bytes come out as the ones on disk. -/
def stage (s : Snapshot δ) (states : States) : Option (Draft δ) :=
  let document := s.document.merge states
  if document.same s.document && (s.hash.isSome || document.isEmpty) then none
  else
    let bytes := document.serialize
    let hash : δ := Digest.ofBytes bytes
    if s.hash = some hash then none
    else some { bytes, hash, document, states, base := s.hash }

/-- The snapshot once a draft is on disk. -/
def ofDraft (draft : Draft δ) : Snapshot δ :=
  { document := draft.document, hash := some draft.hash }

/-- The draft to write now: itself if the snapshot is still the one it was
based on, and otherwise what staging its states again gives. -/
def rebase (s : Snapshot δ) (draft : Draft δ) : Option (Draft δ) :=
  if s.hash = draft.base then some draft else s.stage draft.states

/-- The names among `known` whose entries differ between two documents. -/
def differing (known : List String) (d e : Document) : List String :=
  known.filter fun name => !Json.sameOption (Bindings.get? d name) (Bindings.get? e name)

/-- **Compare** with what is on disk now. Content with the remembered digest is
not looked at. -/
def changed (s : Snapshot δ) (unit : Path) (content : Option Bytes) (known : List String) :
    Except Failure (List String) :=
  match content with
  | some bytes =>
    if s.hash = some (Digest.ofBytes bytes) then .ok []
    else match Document.parse unit bytes with
      | .ok d => .ok (differing known s.document d)
      | .error e => .error e
  | none =>
    if s.hash.isNone then .ok [] else .ok (differing known s.document [])

end Snapshot

/-! ## 3. Storages -/

/-- A unit with its snapshot. -/
structure Storage (δ : Type) where
  unit : Path
  /-- The text that the unit was expanded from. -/
  template : String
  snapshot : Snapshot δ := {}

namespace Storage

variable {δ : Type}

/-- The remembered state of a component. -/
def state? (s : Storage δ) (name : String) : Option Json :=
  Bindings.get? s.snapshot.document name

/-- The names with a remembered state. -/
def names (s : Storage δ) : List String := Bindings.keys s.snapshot.document

end Storage

end ScopedState
