/-
`Disk.lean` -- a directory tree and the operations on it.

The tree is kept flat: every directory and file below the root is bound to its
place, which is the list of names that leads to it. A path is followed name by
name from the root or from the working directory; each step needs a directory
to stand in, `.` stays there and `..` goes back. There are no links, so going
back is dropping the last name.

Operations fail the way the system calls of the same name do. Creating a file
over a directory, removing a directory as a file and moving a file over a
directory are refused; a name longer than 255 bytes and a path of 4096 bytes
or more are too long. Permissions restrict nobody here: a file without write
permission can be replaced and removed, and the permission is only something
that can be asked for.

An operation is done as a whole or refused as a whole. In particular a device
that is full, or a process that is stopped, half-way through a file is not
something that can happen to this tree.
-/
import ScopedState.Path
import ScopedState.Text.Utf8
set_option autoImplicit false

namespace ScopedState

/-- Why the system refuses an operation. -/
inductive OsError where
  | notFound
  | alreadyExists
  | notDirectory
  | isDirectory
  | busy
  | nameTooLong
  /-- The path holds a zero character. -/
  | zeroInPath
  /-- No part of a directory tree could be made. -/
  | noTree
  /-- A file that should hold text does not. -/
  | notText
  deriving DecidableEq, Repr, Inhabited

/-- The text of a refusal. -/
def OsError.message : OsError → String
  | notFound => "No such file or directory (os error 2)"
  | alreadyExists => "File exists (os error 17)"
  | notDirectory => "Not a directory (os error 20)"
  | isDirectory => "Is a directory (os error 21)"
  | busy => "Device or resource busy (os error 16)"
  | nameTooLong => "File name too long (os error 36)"
  | zeroInPath => "file name contained an unexpected NUL byte"
  | noTree => "failed to create whole tree"
  | notText => "stream did not contain valid UTF-8"

/-- Where a file or directory is: the names that lead to it from the root. -/
abbrev Place := List String

/-- A directory or a file. -/
inductive Node where
  | directory
  | file (bytes : Bytes) (readOnly : Bool)
  deriving DecidableEq, Repr, Inhabited

/-- A directory tree without links, and the directory that relative paths start from. -/
structure Disk where
  nodes : Bindings Place Node := []
  cwd : Place := []
  deriving DecidableEq, Repr, Inhabited

namespace Disk

/-! ## 1. Following paths -/

/-- What is at a place. The root is a directory. -/
def node? (d : Disk) (place : Place) : Option Node :=
  if place.isEmpty then some .directory else Bindings.get? d.nodes place

/-- Put a directory or file at a place. -/
def put (d : Disk) (place : Place) (node : Node) : Disk :=
  { d with nodes := Bindings.insert d.nodes place node }

/-- Leave nothing at a place. -/
def drop (d : Disk) (place : Place) : Disk :=
  { d with nodes := Bindings.erase d.nodes place }

/-- Where a path starts. -/
def start (d : Disk) (p : Path) : Place := if p.isAbsolute then [] else d.cwd

/-- The steps that a path is written with. -/
def steps (p : Path) : List String := (p.pieces.filter (· ≠ [])).map String.ofList

/-- Whether a path ends in a slash, so that it can only name a directory. -/
def endsInSlash (p : Path) : Bool := p.text.toList.getLast? = some '/'

/-- What is wrong with a path before it is followed. -/
def check (p : Path) : Except OsError Unit :=
  if p.text.toList.contains '\x00' then .error .zeroInPath
  else if p.text.isEmpty then .error .notFound
  else if 4096 ≤ p.text.utf8ByteSize then .error .nameTooLong
  else .ok ()

/-- Whether a step is too long to be a name. -/
def tooLong (step : String) : Bool := 255 < step.utf8ByteSize

/-- Follow steps to something that is there. -/
def follow (d : Disk) : Place → List String → Except OsError Place
  | here, [] => .ok here
  | here, step :: rest =>
    match d.node? here with
    | none => .error .notFound
    | some (.file _ _) => .error .notDirectory
    | some .directory =>
      if step = "." then follow d here rest
      else if step = ".." then follow d here.dropLast rest
      else if tooLong step then .error .nameTooLong
      else if (d.node? (here ++ [step])).isNone then .error .notFound
      else follow d (here ++ [step]) rest

/-- Follow steps to a directory. -/
def followDirectory (d : Disk) (here : Place) (steps : List String) : Except OsError Place :=
  match d.follow here steps with
  | .error e => .error e
  | .ok place => if d.node? place = some .directory then .ok place else .error .notDirectory

/-- The place of what a path names, if it is there. -/
def locate (d : Disk) (p : Path) : Except OsError Place := do
  check p
  d.follow (d.start p) (steps p ++ if endsInSlash p then ["."] else [])

/-- The directory that the last step of a path stands in, and that step; no
step for the root. -/
def locateParent (d : Disk) (p : Path) (steps : List String) :
    Except OsError (Place × Option String) := do
  check p
  let place ← d.followDirectory (d.start p) steps.dropLast
  return (place, steps.getLast?)

/-! ## 2. Asking -/

/-- What a path names. -/
def stat (d : Disk) (p : Path) : Except OsError Node :=
  match d.locate p with
  | .error e => .error e
  | .ok place => .ok ((d.node? place).getD .directory)

/-- Whether a path names something. -/
def pathExists (d : Disk) (p : Path) : Bool := (d.stat p).toOption.isSome

/-- Whether a path names a file. -/
def isFile (d : Disk) (p : Path) : Bool :=
  match d.stat p with
  | .ok (.file _ _) => true
  | _ => false

/-- Whether a path names a directory. -/
def isDirectory (d : Disk) (p : Path) : Bool :=
  match d.stat p with
  | .ok .directory => true
  | _ => false

/-- The content of a file. -/
def read (d : Disk) (p : Path) : Except OsError Bytes :=
  match d.stat p with
  | .error e => .error e
  | .ok .directory => .error .isDirectory
  | .ok (.file bytes _) => .ok bytes

/-- The content of a text file. -/
def readText (d : Disk) (p : Path) : Except OsError (List Char) :=
  match d.read p with
  | .error e => .error e
  | .ok bytes =>
    match Utf8.decode bytes with
    | some text => .ok text
    | none => .error .notText

/-- The names of what is right below a place. -/
def childrenOf (d : Disk) (place : Place) : List String :=
  d.nodes.filterMap fun entry =>
    match entry.1.getLast? with
    | some name => if entry.1.dropLast = place then some name else none
    | none => none

/-- The names in a directory. -/
def list (d : Disk) (p : Path) : Except OsError (List String) :=
  match d.locate p with
  | .error e => .error e
  | .ok place =>
    if d.node? place = some .directory then .ok (d.childrenOf place) else .error .notDirectory

/-- The text of a place as an absolute path. -/
def textOf (place : Place) : String := "/" ++ "/".intercalate place

/-- The absolute path, without `.` and `..`, of what a path names. -/
def canonical (d : Disk) (p : Path) : Except OsError Path :=
  match d.locate p with
  | .error e => .error e
  | .ok place => .ok ⟨textOf place⟩

/-! ## 3. Changing -/

/-- Whether a step names nothing that could be made or removed. -/
def isDots (step : String) : Bool := step = "." || step = ".."

/-- Write a file: a new one, or the content of one that is there, which keeps
its permission. The file gets all of the bytes, or the write is refused and the
tree stays as it is. -/
def write (d : Disk) (p : Path) (bytes : Bytes) : Except OsError Disk :=
  match d.locateParent p (steps p) with
  | .error e => .error e
  | .ok (_, none) => .error .isDirectory
  | .ok (parent, some step) =>
    if endsInSlash p || isDots step then .error .isDirectory
    else if tooLong step then .error .nameTooLong
    else
      let place := parent ++ [step]
      match d.node? place with
      | some .directory => .error .isDirectory
      | some (.file _ readOnly) => .ok (d.put place (.file bytes readOnly))
      | none => .ok (d.put place (.file bytes false))

/-- Remove a file. -/
def remove (d : Disk) (p : Path) : Except OsError Disk :=
  match d.locateParent p (steps p ++ if endsInSlash p then ["."] else []) with
  | .error e => .error e
  | .ok (_, none) => .error .isDirectory
  | .ok (parent, some step) =>
    if isDots step then .error .isDirectory
    else if tooLong step then .error .nameTooLong
    else
      let place := parent ++ [step]
      match d.node? place with
      | none => .error .notFound
      | some .directory => .error .isDirectory
      | some (.file _ _) => .ok (d.drop place)

/-- Move a file to another path, in place of a file that is there. -/
def move (d : Disk) (source target : Path) : Except OsError Disk :=
  match d.locateParent source (steps source) with
  | .error e => .error e
  | .ok (parent, step) =>
    match d.locateParent target (steps target) with
    | .error e => .error e
    | .ok (newParent, newStep) =>
      match step, newStep with
      | some step, some newStep =>
        if isDots step || isDots newStep then .error .busy
        else if tooLong step || tooLong newStep then .error .nameTooLong
        else
          let place := parent ++ [step]
          let newPlace := newParent ++ [newStep]
          match d.node? place with
          | none => .error .notFound
          | some .directory => .error .isDirectory
          | some (.file bytes readOnly) =>
            if endsInSlash source || endsInSlash target then .error .notDirectory
            else if d.node? newPlace = some .directory then .error .isDirectory
            else .ok ((d.drop place).put newPlace (.file bytes readOnly))
      | _, _ => .error .busy

/-- Make a directory in one that is there. -/
def makeDirectory (d : Disk) (p : Path) : Except OsError Disk :=
  match d.locateParent p (steps p) with
  | .error e => .error e
  | .ok (_, none) => .error .alreadyExists
  | .ok (parent, some step) =>
    if isDots step then .error .alreadyExists
    else if tooLong step then .error .nameTooLong
    else if (d.node? (parent ++ [step])).isSome then .error .alreadyExists
    else .ok (d.put (parent ++ [step]) .directory)

/-- Make a directory unless it is there already. -/
def ensureDirectory (d : Disk) (p : Path) : Except OsError Disk :=
  match d.makeDirectory p with
  | .ok d => .ok d
  | .error e => if d.isDirectory p then .ok d else .error e

/-- Make a directory and those above it; `fuel` bounds how many. -/
def makeTreeWithin : Nat → Disk → Path → Except OsError Unit × Disk
  | fuel, d, p =>
    if p.location = [] then (.ok (), d)
    else match d.ensureDirectory p with
      | .ok d => (.ok (), d)
      | .error .notFound =>
        match fuel, p.parent? with
        | fuel + 1, some parent =>
          match makeTreeWithin fuel d parent with
          | (.error e, d) => (.error e, d)
          | (.ok (), d) =>
            match d.ensureDirectory p with
            | .ok d => (.ok (), d)
            | .error e => (.error e, d)
        | _, _ => (.error .noTree, d)
      | .error e => (.error e, d)

/-- **Make a directory and those above it** that are missing. What has been
made stays when one of them cannot be. -/
def makeTree (d : Disk) (p : Path) : Except OsError Unit × Disk :=
  makeTreeWithin p.location.length d p

/-- Give a file write permission or take it away. -/
def setReadOnly (d : Disk) (p : Path) (readOnly : Bool) : Disk :=
  match d.locate p with
  | .error _ => d
  | .ok place =>
    match d.node? place with
    | some (.file bytes _) => d.put place (.file bytes readOnly)
    | _ => d

/-- Every file with its place and content, in the order of the places. -/
def files (d : Disk) : List (Place × Bytes) :=
  d.nodes.filterMap fun entry =>
    match entry.2 with
    | .file bytes _ => some (entry.1, bytes)
    | .directory => none

/-- The files below a place, by their paths seen from there. -/
def filesBelow (d : Disk) (place : Place) : Bindings String Bytes :=
  Bindings.ofList (d.files.filterMap fun f =>
    if place.isPrefixOf f.1 then some ("/".intercalate (f.1.drop place.length), f.2) else none)

/-- **What has changed** of the files below a place: the new content of those
that are new or differ, and nothing for those that are gone. -/
def changes (before after : Disk) (place : Place) : Bindings String (Option Bytes) :=
  let old := before.filesBelow place
  let new := after.filesBelow place
  let changed := new.filter fun f => Bindings.get? old f.1 ≠ some f.2
  let gone := old.filter fun f => !Bindings.binds new f.1
  Bindings.ofList (changed.map (fun f => (f.1, some f.2)) ++ gone.map fun f => (f.1, none))

/-- Write a file, making the directories above it. -/
def layOut (d : Disk) (p : Path) (bytes : Bytes) : Disk :=
  let d := p.parent?.elim d fun parent => (d.makeTree parent).2
  match d.write p bytes with
  | .ok d => d
  | .error _ => d

end Disk

end ScopedState
