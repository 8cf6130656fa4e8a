/-
`Path.lean` -- paths as text, and the locations they name.

A path is kept as it was written, because that is how it is shown; it is
compared by the location it names. The location of a path is its list of
parts: the text is cut at every `/`, empty pieces and `.` pieces are dropped
(a `.` that opens a relative path stays), and a leading `/` is a part of its
own. So `/p//a`, `/p/./a` and `/p/a/` are three texts and one location.

Locations are ordered part by part, `/` before `.` before `..` before names,
names by their characters. Everything that has to be looked up by path is
keyed by location, and keeps the text beside it where the text is shown.
-/
import ScopedState.Bindings
set_option autoImplicit false

namespace ScopedState

/-! ## 1. Parts and locations -/

/-- One part of a location. -/
inductive Part where
  /-- The leading `/` of an absolute path. -/
  | root
  /-- The `.` that opens a relative path. -/
  | here
  /-- The step `..` to the directory above. -/
  | up
  /-- The name of a file or directory. -/
  | name (text : String)
  deriving DecidableEq, Repr, Inhabited

namespace Part

/-- The place of a kind of part in the order of parts. -/
def rank : Part → Nat
  | root => 0
  | here => 1
  | up => 2
  | name _ => 3

/-- The text of a part as it is written. -/
def text : Part → String
  | root => "/"
  | here => "."
  | up => ".."
  | name text => text

/-- Parts are ordered by kind, and names among themselves by their text. -/
instance : LT Part where
  lt a b := a.rank < b.rank ∨ (a.rank = b.rank ∧ a.text < b.text)

instance (a b : Part) : Decidable (a < b) :=
  inferInstanceAs (Decidable (a.rank < b.rank ∨ (a.rank = b.rank ∧ a.text < b.text)))

end Part

/-- What a path names: its parts, from the front. -/
abbrev Location := List Part

/-- A path, as it was written. -/
structure Path where
  text : String
  deriving DecidableEq, Repr, Inhabited

namespace Path

/-- Cut a text at every `/`. There is always at least one piece. -/
def cut : List Char → List (List Char)
  | [] => [[]]
  | c :: rest =>
    if c = '/' then [] :: cut rest
    else match cut rest with
      | [] => [[c]]
      | piece :: pieces => (c :: piece) :: pieces

/-- The pieces of a path between its slashes. -/
def pieces (p : Path) : List (List Char) := cut p.text.toList

/-- Whether the path starts at the root. -/
def isAbsolute (p : Path) : Bool := p.text.toList.head? = some '/'

/-- Whether a piece that does not open its path names nothing. -/
def isSilent (piece : List Char) : Bool := piece = [] || piece = ['.']

/-- The part that a piece stands for. -/
def partOf (piece : List Char) : Part :=
  if piece = ['.', '.'] then .up else .name (String.ofList piece)

/-- The parts of the pieces behind the first one. -/
def innerParts (pieces : List (List Char)) : List Part :=
  (pieces.filter fun piece => !isSilent piece).map partOf

/-- **The location of a path.** The first piece is the one place where an
empty piece (a leading slash) or a `.` counts. -/
def location (p : Path) : Location :=
  match p.pieces with
  | [] => []
  | first :: rest =>
    if first = [] then (if rest.isEmpty then [] else [.root]) ++ innerParts rest
    else if first = ['.'] then .here :: innerParts rest
    else partOf first :: innerParts rest

/-- Whether two paths name one location. -/
def same (p q : Path) : Bool := p.location = q.location

/-! ## 2. The end of a path -/

/-- Drop the pieces at the end that name nothing. The pieces come last one
first; the piece that opens a relative path stays even when it is a `.`. -/
def dropSilent (absolute : Bool) : List (List Char) → List (List Char)
  | [] => []
  | [first] => if first = [] || (absolute && first = ['.']) then [] else [first]
  | piece :: next :: rest =>
    if isSilent piece then dropSilent absolute (next :: rest) else piece :: next :: rest

/-- The pieces behind the root, last one first, down to the last that counts. -/
def reversedPieces (p : Path) : List (List Char) :=
  dropSilent p.isAbsolute (if p.isAbsolute then p.pieces.tail else p.pieces).reverse

/-- The path made of the given pieces, last one first. -/
def ofReversed (absolute : Bool) (pieces : List (List Char)) : Path :=
  ⟨String.ofList ((if absolute then ['/'] else []) ++ ['/'].intercalate pieces.reverse)⟩

/-- The path without its last part; none for a path of no part or of the root
alone. -/
def parent? (p : Path) : Option Path :=
  match p.reversedPieces with
  | [] => none
  | _ :: rest => some (ofReversed p.isAbsolute (dropSilent p.isAbsolute rest))

/-- The last part, when it is a name. -/
def fileName? (p : Path) : Option String :=
  match p.location.getLast? with
  | some (.name text) => some text
  | _ => none

/-! ## 3. Stem and extension -/

/-- A name cut at its last dot: what is before it and what is after it. There
is no cut in a name without a dot or with its only dot in front. -/
def cutExtension (name : List Char) : List Char × Option (List Char) :=
  let tail := (name.reverse.takeWhile (· ≠ '.')).reverse
  let stem := (name.reverse.dropWhile (· ≠ '.')).reverse.dropLast
  if name.contains '.' && !stem.isEmpty then (stem, some tail) else (name, none)

/-- What follows the last dot of the file name. -/
def extension? (p : Path) : Option String :=
  p.fileName?.bind fun name => (cutExtension name.toList).2.map String.ofList

/-! ## 4. Putting paths together -/

/-- `q` seen from the directory `p`. An absolute `q` stands for itself. -/
def join (p q : Path) : Path :=
  if q.isAbsolute then q
  else if p.text.isEmpty || p.text.toList.getLast? = some '/' then ⟨p.text ++ q.text⟩
  else ⟨p.text ++ "/" ++ q.text⟩

/-- The path with its file name replaced. -/
def withFileName (p : Path) (name : String) : Path :=
  if p.fileName?.isSome then (p.parent?.getD ⟨""⟩).join ⟨name⟩ else p.join ⟨name⟩

/-- The path with `extension` after the stem of its file name, in place of the
extension it has. A path without a file name stays as it is. When the name is
at the very end and has the stem `.`, as `..x` has, then taking the extension
off leaves the step `..`, which is no name and gets none. -/
def withExtension (p : Path) (extension : String) : Path :=
  match p.reversedPieces with
  | [] => p
  | last :: rest =>
    let stem := (cutExtension last).1
    if p.fileName?.isNone then p
    else if stem = ['.'] && p.pieces.getLast? = some last then
      ofReversed p.isAbsolute (['.', '.'] :: rest)
    else ofReversed p.isAbsolute ((stem ++ '.' :: extension.toList) :: rest)

/-- The path with slashes at its end taken off; the root keeps its own. -/
def trimmed (p : Path) : String :=
  let kept := (p.text.toList.reverse.dropWhile (· = '/')).reverse
  if kept.isEmpty then "/" else String.ofList kept

instance : ToString Path := ⟨Path.text⟩

end Path

/-! ## 5. Sets of paths -/

/-- A set of paths in the order of their locations, one text for each. -/
abbrev Paths := Bindings Location Path

namespace Paths

/-- The set with `p` in it. A text that stands for the location already
stays. -/
def insert (paths : Paths) (p : Path) : Paths := Bindings.insertNew paths p.location p

/-- The set of the listed paths. Of several texts for one location the last
counts. -/
def ofList (ps : List Path) : Paths := Bindings.ofList (ps.map fun p => (p.location, p))

/-- Whether a path with the location of `p` is in the set. -/
def contains (paths : Paths) (p : Path) : Bool := Bindings.binds paths p.location

/-- The paths, in order. -/
def toList (paths : Paths) : List Path := Bindings.values paths

end Paths

end ScopedState
