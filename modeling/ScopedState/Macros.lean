/-
`Macros.lean` -- path variables in templates and in persisted state.

A reference is a name between dollar signs, such as `$PROJECT_DIR$`, where the
name is a letter or underscore followed by letters, digits and underscores. A
table gives each name a path. Expanding replaces references by paths: reading
goes from left to right, a reference found is passed over whole, and one that
the table does not know stays as it is and is remembered. Collapsing goes the
other way: for each path of the table, the longest first, its occurrences are
replaced by the reference, provided the occurrence ends where a path part
ends. So `/work/demo` is not found in `/work/demo2`.
-/
import ScopedState.Json.Value
import ScopedState.Path
import ScopedState.Text.Utf8
set_option autoImplicit false

namespace ScopedState

/-- The path variables of a scope: name to path. -/
abbrev MacroTable := Bindings String String

namespace MacroTable

/-! ## 1. The table -/

/-- The variable that names the directory of a scope. -/
def scopeDir : String := "SCOPE_DIR"

/-- The variable that names the directory of a project. -/
def projectDir : String := "PROJECT_DIR"

/-- Add a variable; slashes at the end of its path are dropped. -/
def define (table : MacroTable) (name : String) (path : Path) : MacroTable :=
  Bindings.insert table name path.trimmed

/-- The variables of a scope in the given directory. -/
def forScope (dir : Path) : MacroTable := define [] scopeDir dir

/-! ## 2. Expanding -/

/-- Whether a name may start with `c`. -/
def startsName (c : Char) : Bool := c.isAlpha || c = '_'

/-- Whether a name may go on with `c`. -/
def continuesName (c : Char) : Bool := c.isAlphanum || c = '_'

/-- A piece of a text: a reference by its name, or a character that belongs to
none. -/
inductive Token where
  | plain (c : Char)
  | reference (name : List Char)
  deriving DecidableEq, Repr

/-- The tokens of characters that have turned out to be plain. -/
def plainly (text : List Char) : List Token := text.map .plain

/-- Cut a text into tokens. `open?` holds what follows a dollar sign that may
open a reference, the last character first; a second dollar sign closes the
reference if that is a name, and otherwise opens the next one. -/
def scan (open? : Option (List Char)) : List Char → List Token
  | [] =>
    match open? with
    | none => []
    | some seen => plainly ('$' :: seen.reverse)
  | c :: rest =>
    match open? with
    | none => if c = '$' then scan (some []) rest else .plain c :: scan none rest
    | some seen =>
      if c = '$' then
        if seen.isEmpty then .plain '$' :: scan (some []) rest
        else .reference seen.reverse :: scan none rest
      else if (if seen.isEmpty then startsName c else continuesName c) then
        scan (some (c :: seen)) rest
      else plainly ('$' :: seen.reverse) ++ .plain c :: scan none rest

/-- The tokens of a text. -/
def tokens (text : List Char) : List Token := scan none text

/-- What a token is replaced by. -/
def expandToken (table : MacroTable) : Token → List Char
  | .plain c => [c]
  | .reference name =>
    match Bindings.get? table (String.ofList name) with
    | some path => path.toList
    | none => '$' :: name ++ ['$']

/-- **Expand** the references of a text. -/
def expand (table : MacroTable) (text : String) : String :=
  String.ofList ((tokens text.toList).flatMap (expandToken table))

/-- The names that a text refers to and the table does not have. -/
def unknownIn (table : MacroTable) (text : String) : List String :=
  (tokens text.toList).filterMap fun
    | .plain _ => none
    | .reference name =>
      let name := String.ofList name
      if Bindings.binds table name then none else some name

/-! ## 3. Collapsing -/

/-- What is left of `text` behind `value`, if it starts with it. -/
def behind : List Char → List Char → Option (List Char)
  | [], text => some text
  | _ :: _, [] => none
  | v :: vs, c :: text => if v = c then behind vs text else none

/-- Whether a path part ends in front of `rest`. -/
def atBoundary (rest : List Char) : Bool :=
  match rest with
  | [] => true
  | c :: _ => c = '/' || c = '\\'

/-- Replace the occurrences of `value` that end at a boundary. An occurrence
that does not is passed over whole. `skip` counts the characters that are
still part of one. -/
def replaceFrom (value replacement : List Char) (skip : Nat) : List Char → List Char
  | [] => []
  | c :: rest =>
    match skip with
    | n + 1 => replaceFrom value replacement n rest
    | 0 =>
      match behind value (c :: rest) with
      | none => c :: replaceFrom value replacement 0 rest
      | some after =>
        let image :=
          if value.getLast? = some '/' || atBoundary after then replacement else value
        image ++ replaceFrom value replacement (value.length - 1) rest

/-- Whether the variable `a` is collapsed before `b`: the longer path, in
bytes, comes first, and among equals the lesser name. -/
def collapsesBefore (a b : String × String) : Bool :=
  b.2.utf8ByteSize < a.2.utf8ByteSize || (a.2.utf8ByteSize = b.2.utf8ByteSize && a.1 ≤ b.1)

/-- Put a variable in its place among those that are collapsed in turn. -/
def schedule (entry : String × String) : List (String × String) → List (String × String)
  | [] => [entry]
  | e :: rest => if collapsesBefore entry e then entry :: e :: rest else e :: schedule entry rest

/-- The variables in the order in which they are collapsed. -/
def inOrder (table : MacroTable) : List (String × String) := table.foldr schedule []

/-- The reference to a variable. -/
def reference (name : String) : List Char := '$' :: name.toList ++ ['$']

/-- **Collapse** the paths of a text into references. -/
def collapse (table : MacroTable) (text : String) : String :=
  String.ofList <| (inOrder table).foldl
    (fun text entry => replaceFrom entry.2.toList (reference entry.1) 0 text) text.toList

/-! ## 4. Whole values -/

/-- Expand every string of a value. -/
def expandValue (table : MacroTable) (v : Json) : Json := v.mapStrings (expand table)

/-- Collapse every string of a value. -/
def collapseValue (table : MacroTable) (v : Json) : Json := v.mapStrings (collapse table)

/-- The names that the strings of a value refer to and the table does not
have. -/
def unknownInValue (table : MacroTable) (v : Json) : List String :=
  v.strings.flatMap (unknownIn table)

end MacroTable

/-! ## 5. A table that remembers -/

/-- A table together with the unknown names met so far. -/
structure Substitutor where
  table : MacroTable
  unknown : List String := []
  deriving DecidableEq, Repr, Inhabited

namespace Substitutor

/-- Remember unknown names. -/
def remember (s : Substitutor) (names : List String) : Substitutor :=
  { s with unknown := Ascending.union s.unknown names }

/-- Expand a text and remember what was unknown in it. -/
def expand (s : Substitutor) (text : String) : String × Substitutor :=
  (s.table.expand text, s.remember (s.table.unknownIn text))

/-- Expand a value and remember what was unknown in it. -/
def expandValue (s : Substitutor) (v : Json) : Json × Substitutor :=
  (s.table.expandValue v, s.remember (s.table.unknownInValue v))

/-- Forget the unknown names. -/
def forget (s : Substitutor) : Substitutor := { s with unknown := [] }

/-- Expand a value when there is a table, and leave it alone otherwise. -/
def expandWith (s : Option Substitutor) (v : Json) : Json × Option Substitutor :=
  match s with
  | none => (v, none)
  | some s => let (v, s) := s.expandValue v; (v, some s)

/-- Collapse a value when there is a table, and leave it alone otherwise. -/
def collapseWith (s : Option MacroTable) (v : Json) : Json :=
  match s with
  | none => v
  | some table => table.collapseValue v

end Substitutor

end ScopedState
