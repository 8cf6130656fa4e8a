/-
`Backing/LocalFiles.lean` -- units kept as files.

A write goes to a temporary file beside the unit, which is then moved over it.
So at no time is the unit anything but its old content or its new one, and a
write that fails leaves the old one. Directories above the unit are made when
they are missing. How many writes came to pass, and how many temporary files
could not be taken away again, is counted.
-/
import ScopedState.Backing
import ScopedState.Disk
set_option autoImplicit false

namespace ScopedState

/-- A backing store on disk. -/
structure LocalFiles where
  disk : Disk
  /-- Whether content is flushed to the device before a file is moved. -/
  durable : Bool := true
  /-- The number of writes that have succeeded. -/
  writes : Nat := 0
  /-- The number of temporary files that were in the way of a write and could
  not be taken away. -/
  strays : Nat := 0
  deriving DecidableEq, Repr, Inhabited

namespace LocalFiles

/-- The temporary file beside a unit. -/
def temporary (p : Path) : Path := p.withFileName (p.fileName?.getD "" ++ ".tmp")

/-- Make the directories above a unit. -/
def makeParents (d : Disk) (p : Path) : Except OsError Unit × Disk :=
  match p.parent? with
  | none => (.ok (), d)
  | some parent => if parent.text.isEmpty then (.ok (), d) else d.makeTree parent

/-- Write the temporary file and move it over the unit. If either fails the
temporary file is removed. -/
def replace (d : Disk) (p : Path) (bytes : Bytes) : Except OsError Unit × Disk :=
  let withdraw (d : Disk) : Disk :=
    match d.remove (temporary p) with
    | .ok d => d
    | .error _ => d
  match d.write (temporary p) bytes with
  | .error e => (.error e, withdraw d)
  | .ok d =>
    match d.move (temporary p) p with
    | .error e => (.error e, withdraw d)
    | .ok d => (.ok (), d)

/-- **Write a file** so that it is replaced as a whole or not at all. -/
def writeAtomic (d : Disk) (p : Path) (bytes : Bytes) : Except OsError Unit × Disk :=
  match makeParents d p with
  | (.error e, d) => (.error e, d)
  | (.ok (), d) => replace d p bytes

/-- Read a unit; none if there is no such file. -/
def read (l : LocalFiles) (unit : Path) : Except Failure (Option Bytes) :=
  match l.disk.read unit with
  | .ok bytes => .ok (some bytes)
  | .error .notFound => .ok none
  | .error e => .error (.backing unit ("read failed: " ++ e.message))

/-- Whether a write that has failed could not take its temporary file away. -/
def strands (before after : Disk) (p : Path) : Bool :=
  match (makeParents before p).1, after.remove (temporary p) with
  | .ok (), .error .notFound => false
  | .ok (), .error _ => true
  | _, _ => false

/-- Write a unit. -/
def write (l : LocalFiles) (unit : Path) (bytes : Bytes) : Outcome × LocalFiles :=
  match writeAtomic l.disk unit bytes with
  | (.ok (), disk) => (.ok (), { l with disk, writes := l.writes + 1 })
  | (.error e, disk) =>
    (.error (.backing unit ("write failed: " ++ e.message)),
      { l with disk, strays := l.strays + (strands l.disk disk unit).toNat })

/-- Delete a unit. -/
def delete (l : LocalFiles) (unit : Path) : Outcome × LocalFiles :=
  match l.disk.remove unit with
  | .ok disk => (.ok (), { l with disk })
  | .error .notFound => (.ok (), l)
  | .error e => (.error (.backing unit ("delete failed: " ++ e.message)), l)

/-- Whether a unit is not a file without write permission. -/
def isWritable (l : LocalFiles) (unit : Path) : Bool :=
  match l.disk.stat unit with
  | .ok (.file _ readOnly) => !readOnly
  | _ => true

instance : Backing LocalFiles where
  read := read
  write := write
  delete := delete
  isWritable := isWritable

end LocalFiles

end ScopedState
